import Cuescript.Proofs.Directive.Listing
import Cuescript.Proofs.Execution.Immediate
import Cuescript.Proofs.Forest.Guards
import Mathlib.Data.List.Nodup

/-!
What the lines of a script do. A script that is executed at once runs the actions before its first
trigger that are permitted, each after what stands in front of it; the actions after a trigger are
left to those that answer. Both are told from the lines alone and from the store as it was before.
-/
namespace Cuescript

open Shape

variable {ν : Type}

/-- The body of the action at a position runs in this world: the action is permitted, and the
requirements directly before it hold; or it follows a head whose body ran and did not fail. -/
inductive World.Runs (w : World ν) (t : Target) (c : Context) (items : List Item) : Nat → Prop
  | head {k : Nat} (head : Head (Layout.kinds items) k)
      (permitted : w.permits t (Layout.stepAt items k) = true)
      (holds : w.holds t c (Layout.guardsAt items k) = true) : Runs w t c items k
  | follower {h k : Nat} (follows : Follows (Layout.kinds items) h k)
      (permitted : w.permits t (Layout.stepAt items k) = true) (first : Runs w t c items h)
      (succeeds : (w.runBody (Layout.stepAt items h) t c).1.isFailure = false) : Runs w t c items k

namespace World.Runs

variable {w : World ν} {t : Target} {c : Context} {items : List Item}

theorem action {k : Nat} (runs : w.Runs t c items k) :
    (Layout.kinds items)[k]? = some .action := by
  cases runs with
  | head head => exact head.action
  | follower follows => exact follows.action

theorem head_iff {h : Nat} (head : Head (Layout.kinds items) h) :
    w.Runs t c items h ↔
      (w.permits t (Layout.stepAt items h) && w.holds t c (Layout.guardsAt items h)) = true := by
  rw [Bool.and_eq_true]
  constructor
  · rintro (⟨_, permitted, holds⟩ | ⟨follows, _⟩)
    · exact ⟨permitted, holds⟩
    · exact absurd head follows.not_head
  · rintro ⟨permitted, holds⟩
    exact .head head permitted holds

theorem follower_iff {h k : Nat} (follows : Follows (Layout.kinds items) h k) :
    w.Runs t c items k ↔
      w.permits t (Layout.stepAt items k) = true ∧ w.Runs t c items h ∧
        (w.runBody (Layout.stepAt items h) t c).1.isFailure = false := by
  constructor
  · rintro (⟨head, _⟩ | ⟨follows', permitted, first, succeeds⟩)
    · exact absurd head follows.not_head
    · obtain rfl := follows'.head_unique follows
      exact ⟨permitted, first, succeeds⟩
  · rintro ⟨permitted, first, succeeds⟩
    exact .follower follows permitted first succeeds

end World.Runs

namespace Layout

variable {items : List Item} {w : World ν} {t : Target} {c : Context}

theorem membersAll_followers {h : Nat} {ks : List Nat}
    (follow : ∀ k ∈ ks, Follows (kinds items) h k) :
    ActionNode.membersAll (ks.map (nodeAt items)) = ks.map (nodeAt items) := by
  induction ks with
  | nil => rfl
  | cons k rest ih =>
    have each := List.forall_mem_cons.mp follow
    simp only [List.map_cons, ActionNode.membersAll, ih each.2]
    rw [nodeAt_follower each.1]
    rfl

theorem bodiesAll_followers {h : Nat} {ks : List Nat}
    (follow : ∀ k ∈ ks, Follows (kinds items) h k) :
    ActionNode.bodiesAll w t c (ks.map (nodeAt items)) =
      (ks.filter fun k => w.permits t (stepAt items k)).map fun k => (nodeAt items k).step := by
  induction ks with
  | nil => rfl
  | cons k rest ih =>
    have each := List.forall_mem_cons.mp follow
    have same : w.permits t { stepAt items k with guards := [] } = w.permits t (stepAt items k) :=
      rfl
    have nothing : w.holds t c [] = true := rfl
    simp only [List.map_cons, ActionNode.bodiesAll, ih each.2, List.filter_cons]
    rw [nodeAt_follower each.1]
    simp only [ActionNode.bodies, same, nothing, Bool.and_true, ActionNode.bodiesAll, ite_self]
    split
    · rw [List.map_cons, nodeAt_follower each.1]
      rfl
    · rfl

open Classical in
theorem bodies_head {h : Nat} (head : Head (kinds items) h) {ks : List Nat}
    (order : InOrder (Follows (kinds items) h) ks)
    (node : nodeAt items h =
      ⟨{ stepAt items h with guards := guardsAt items h }, ks.map (nodeAt items)⟩) :
    (nodeAt items h).bodies w t c =
      ((h :: ks).filter fun k => w.Runs t c items k).map fun k => (nodeAt items k).step := by
  have follow : ∀ k ∈ ks, Follows (kinds items) h k := fun k hk => (order.mem k).mp hk
  have own : (nodeAt items h).step = { stepAt items h with guards := guardsAt items h } := by
    rw [node]
  have bodies : (nodeAt items h).bodies w t c =
      if w.permits t (stepAt items h) && w.holds t c (guardsAt items h) then
        (nodeAt items h).step ::
          if (w.runBody (stepAt items h) t c).1.isFailure then []
          else (ks.filter fun k => w.permits t (stepAt items k)).map fun k => (nodeAt items k).step
      else [] := by
    rw [← bodiesAll_followers follow, own, node]
    rfl
  rw [bodies, List.filter_cons]
  cases goes : w.permits t (stepAt items h) && w.holds t c (guardsAt items h) with
  | false =>
    have not : ¬ w.Runs t c items h := by
      rw [World.Runs.head_iff head, goes]
      exact Bool.false_ne_true
    have none : ks.filter (fun k => w.Runs t c items k) = [] := by
      rw [List.filter_eq_nil_iff]
      intro k hk
      simp [World.Runs.follower_iff (follow k hk), not]
    simp [not, none]
  | true =>
    have runs : w.Runs t c items h := (World.Runs.head_iff head).mpr goes
    have same : ∀ k ∈ ks, decide (w.Runs t c items k) =
        (!(w.runBody (stepAt items h) t c).1.isFailure && w.permits t (stepAt items k)) := by
      intro k hk
      rw [Bool.eq_iff_iff]
      simp [World.Runs.follower_iff (follow k hk), runs, and_comm]
    rw [List.filter_congr same]
    cases (w.runBody (stepAt items h) t c).1.isFailure <;> simp [runs]

open Classical in
theorem bodies_heads {hs : List Nat} (ascending : hs.Pairwise (· < ·))
    (heads : ∀ h ∈ hs, Head (kinds items) h) :
    ∃ ps, InOrder (fun k => ∃ h ∈ hs, k = h ∨ Follows (kinds items) h k) ps ∧
      ActionNode.membersAll (hs.map (nodeAt items)) = ps.map (nodeAt items) ∧
      ActionNode.bodiesAll w t c (hs.map (nodeAt items)) =
        (ps.filter fun k => w.Runs t c items k).map fun k => (nodeAt items k).step := by
  induction hs with
  | nil => exact ⟨[], InOrder.nil (by simp), rfl, rfl⟩
  | cons h rest ih =>
    obtain ⟨front, tail⟩ := List.pairwise_cons.mp ascending
    obtain ⟨head, others⟩ := List.forall_mem_cons.mp heads
    obtain ⟨ps, later, members, bodies⟩ := ih tail others
    obtain ⟨ks, order, node⟩ := nodeAt_head head
    have own : ∀ k ∈ h :: ks, k = h ∨ Follows (kinds items) h k := by
      intro k hk
      exact (List.mem_cons.mp hk).imp_right (order.mem k).mp
    refine ⟨(h :: ks) ++ ps, ⟨?_, ?_⟩, ?_, ?_⟩
    · -- What follows one head comes before the next.
      refine List.pairwise_append.mpr ⟨List.pairwise_cons.mpr ⟨?_, order.ascending⟩,
        later.ascending, ?_⟩
      · exact fun k hk => ((order.mem k).mp hk).2.1
      · intro k hk j hj
        obtain ⟨g, hg, from_⟩ := (later.mem j).mp hj
        have before : k < g := by
          rcases own k hk with rfl | follows
          · exact front g hg
          · exact follows.lt_head (others g hg) (front g hg)
        rcases from_ with rfl | follows
        · exact before
        · exact Nat.lt_trans before follows.2.1
    · intro k
      rw [List.mem_append, List.mem_cons, order.mem, later.mem]
      simp
    · have inside : (nodeAt items h).members = (h :: ks).map (nodeAt items) := by
        rw [List.map_cons, ← membersAll_followers fun k hk => (order.mem k).mp hk, node]
        rfl
      rw [List.map_cons, ActionNode.membersAll, members, List.map_append, inside]
    · rw [List.map_cons, ActionNode.bodiesAll, bodies_head head order node, bodies,
        List.filter_append, List.map_append]

open Classical in
/-- The actions at the top of a forest and below it are those before the first trigger. -/
theorem ofItems_actions (items : List Item) (w : World ν) (t : Target) (c : Context) :
    ∃ ps, InOrder (fun k => (kinds items)[k]? = some .action ∧
          ∀ u < k, (kinds items)[u]? ≠ some .trigger) ps ∧
      ActionNode.membersAll (Forest.ofItems items).actions = ps.map (nodeAt items) ∧
      ActionNode.bodiesAll w t c (Forest.ofItems items).actions =
        (ps.filter fun k => w.Runs t c items k).map fun k => (nodeAt items k).step := by
  obtain ⟨hs, _, top, _, actions, _⟩ := @ofItems_top items
  obtain ⟨ps, order, members, bodies⟩ :=
    @bodies_heads _ items w t c hs top.ascending fun h hh => ((top.mem h).mp hh).1
  refine ⟨ps, order.congr fun k => ?_, actions ▸ members, actions ▸ bodies⟩
  constructor
  · rintro ⟨h, hh, rfl | follows⟩
    · obtain ⟨head, none⟩ := (top.mem k).mp hh
      exact ⟨head.action, none⟩
    · refine ⟨follows.action, fun u before trigger => ?_⟩
      rcases Nat.lt_or_ge u h with less | le
      · exact ((top.mem h).mp hh).2 u less trigger
      · rw [follows.2.2 u le (Nat.le_of_lt before)] at trigger
        cases trigger
  · rintro ⟨action, none⟩
    obtain ⟨h, head, le, run⟩ := run_of_action action
    refine ⟨h, (top.mem h).mpr ⟨head, fun u before => none u (Nat.lt_of_lt_of_le before le)⟩, ?_⟩
    rcases Nat.lt_or_eq_of_le le with less | rfl
    · exact .inr ⟨head, less, run⟩
    · exact .inl rfl

end Layout

namespace Resolved

variable {r : Registry} {first : Nat} {ds : List Directive} {items : List Item}

theorem guards_nodup (h : Resolved r first ds items) {k : Nat}
    (action : (Layout.kinds items)[k]? = some .action) :
    ((Layout.guardsAt items k).map (·.id)).Nodup ∧
      ∀ i ∈ (Layout.guardsAt items k).map (·.id),
        ∃ j, Adopts (Layout.kinds items) k j ∧ i = ⟨first + j⟩ := by
  obtain ⟨js, order, guards⟩ := Layout.guardsAt_adopts action (by simp)
  have id : ∀ j ∈ js, (Layout.requirementAt items j).id = ⟨first + j⟩ := fun j hj =>
    have adopts := (order.mem j).mp hj
    h.id_requirementAt (adopts.2.1 j (Nat.le_refl j) adopts.1)
  rw [guards, List.map_map]
  constructor
  · refine List.Nodup.map_on ?_ (order.ascending.imp Nat.ne_of_lt)
    intro j hj i hi same
    have numbers := (id j hj).symm.trans (same.trans (id i hi))
    simpa using numbers
  · intro i hi
    obtain ⟨j, hj, rfl⟩ := List.mem_map.mp hi
    exact ⟨j, (order.mem j).mp hj, id j hj⟩

theorem distinct (h : Resolved r first ds items) :
    ActionNode.Distinct (Forest.ofItems items).actions := by
  -- The layout of the actions is the same in any world.
  obtain ⟨ps, order, members, _⟩ :=
    Layout.ofItems_actions items (World.start ⟨0⟩ false : World Unit) default default
  have action : ∀ k ∈ ps, (Layout.kinds items)[k]? = some .action := fun k hk =>
    ((order.mem k).mp hk).1
  have once : ps.Nodup := order.ascending.imp Nat.ne_of_lt
  constructor
  · rw [ActionNode.actIds, members, List.map_map]
    refine List.Nodup.map_on (fun j hj k hk same => ?_) once
    exact h.position_unique (action k hk) (action j hj) same
  · rw [ActionNode.guardIds, members, List.flatMap_map, List.nodup_flatMap]
    constructor
    · intro k hk
      rw [Layout.guards_nodeAt (action k hk)]
      exact (h.guards_nodup (action k hk)).1
    · refine List.Pairwise.imp_of_mem ?_ once
      intro k m hk hm different i hi hi'
      dsimp only at hi hi'
      rw [Layout.guards_nodeAt (action k hk)] at hi
      rw [Layout.guards_nodeAt (action m hm)] at hi'
      obtain ⟨j, adopts, rfl⟩ := (h.guards_nodup (action k hk)).2 i hi
      obtain ⟨j', adopts', same⟩ := (h.guards_nodup (action m hm)).2 _ hi'
      obtain rfl : j = j' := by simpa using same
      exact different (adopts.unique adopts')

end Resolved

def Hold.Allowed (allowed : Allowance) (h : Hold) : Prop :=
  ∀ c, h.claim? = some c → ∃ q, allowed c.pair.1 q

namespace World

variable {allowed : Allowance}

theorem Step.bodies {a b : Hold × World ν} (step : Step allowed a b) (held : a.1.Allowed allowed) :
    b.1.Allowed allowed ∧
      ∃ es, b.2.bodies = a.2.bodies ++ es ∧ ∀ e ∈ es, ∃ q, allowed e.node q := by
  have nothing : Hold.nothing.Allowed allowed := nofun
  have quiet : ∀ w w' : World ν, w'.bodies = w.bodies →
      ∃ es, w'.bodies = w.bodies ++ es ∧ ∀ e ∈ es, ∃ q, allowed e.node q :=
    fun w w' same => ⟨[], by rw [same, List.append_nil], nofun⟩
  have one : ∀ (w : World ν) (s : ActionStep) (t : Target) (c : Context),
      (∃ q, allowed s.id q) → ∃ es, (w.runBody s t c).2.bodies = w.bodies ++ es ∧
        ∀ e ∈ es, ∃ q, allowed e.node q := by
    intro w s t c ok
    refine ⟨[w.body t c s], (@effect_runBody _ [] [] w s t c).bodies, ?_⟩
    simpa [body] using ok
  cases step with
  | futures h w futures => exact ⟨held, quiet _ _ rfl⟩
  | clock w time => exact ⟨held, quiet _ _ rfl⟩
  | asked h w n t c =>
    exact ⟨held, [], (@effect_test _ [] [n.id] w n List.mem_cons_self t c).bodies, nofun⟩
  | matched h w n t d => exact ⟨held, quiet _ _ (bodies_enter _ _ _ _ rfl)⟩
  | denied w i t p d _ is =>
    exact ⟨held, [], (@effect_claim _ [i] [] w i List.mem_cons_self t p).bodies, nofun⟩
  | admitted w i t p c ok is =>
    refine ⟨?_, [], (@effect_claim _ [i] [] w i List.mem_cons_self t p).bodies, nofun⟩
    rintro _ ⟨⟩
    obtain rfl := claim_eq_of is
    exact ⟨p, ok⟩
  | released w c => exact ⟨nothing, quiet _ _ rfl⟩
  | deferred w n t c _ => exact ⟨nothing, quiet _ _ (bodies_enter _ _ _ _ rfl)⟩
  | resumed w before task after ok is =>
    refine ⟨?_, quiet _ _ (bodies_enter _ _ _ _ rfl)⟩
    rintro _ ⟨⟩
    exact ok.2 ▸ ⟨_, (ActionNode.obeys_iff.mp ok.1).1⟩
  | ran h w s t c inHand is => exact ⟨nothing, one w s t c (held _ inHand)⟩
  | failed h w s t c inHand is => exact ⟨nothing, one w s t c (held _ inHand)⟩
  | fired w i t p => exact ⟨nothing, quiet _ _ (bodies_enter _ _ _ _ rfl)⟩

theorem bodies_of_steps {w w' : World ν} (steps : Steps allowed (.nothing, w) (.nothing, w')) :
    ∃ es, w'.bodies = w.bodies ++ es ∧ ∀ e ∈ es, ∃ q, allowed e.node q := by
  have along : ∀ a b : Hold × World ν, Steps allowed a b → a.1.Allowed allowed →
      b.1.Allowed allowed ∧
        ∃ es, b.2.bodies = a.2.bodies ++ es ∧ ∀ e ∈ es, ∃ q, allowed e.node q := by
    intro a b steps held
    induction steps with
    | refl => exact ⟨held, [], (List.append_nil _).symm, nofun⟩
    | tail _ step ih =>
      obtain ⟨held, es, bodies, each⟩ := ih
      obtain ⟨held', es', bodies', each'⟩ := step.bodies held
      refine ⟨held', es ++ es', by rw [bodies', bodies, List.append_assoc], fun e he => ?_⟩
      exact (List.mem_append.mp he).elim (each e) (each' e)
  exact (along _ _ steps nofun).2

theorem executeEach_nodes (ns : List ActionNode) (t : Target) (c : Context) (w : World ν) :
    ∃ es, (ActionNode.executeEach ns t c w).2.bodies = w.bodies ++ es ∧
      ∀ e ∈ es, ∃ m ∈ ActionNode.membersAll ns, e.node = m.id := by
  let inside : Allowance := fun i _ => ∃ m ∈ ActionNode.membersAll ns, i = m.id
  have obey : ActionNode.ObeyAll inside ns := fun m hm => ⟨m, hm, rfl⟩
  obtain ⟨es, bodies, each⟩ := bodies_of_steps (ActionNode.executeEach_steps t c ns obey w)
  refine ⟨es, bodies, fun e he => ?_⟩
  obtain ⟨_, node⟩ := each e he
  exact node

theorem fire_nodes (w : World ν) (n : TriggerNode) (t : Target) (d : TriggerData) :
    ∃ es, (w.fire n t d).2.bodies = w.bodies ++ es ∧
      ∀ e ∈ es, ∃ m ∈ ActionNode.membersAll n.actions, e.node = m.id := by
  have quiet : ∀ w' : World ν, w'.bodies = w.bodies → ∃ es, w'.bodies = w.bodies ++ es ∧
      ∀ e ∈ es, ∃ m ∈ ActionNode.membersAll n.actions, e.node = m.id :=
    fun w' same => ⟨[], by rw [same, List.append_nil], nofun⟩
  have matched : (w.matchData n t d).2.bodies = w.bodies := bodies_enter _ _ _ _ rfl
  rw [fire]
  split
  · exact quiet _ rfl
  · dsimp only
    generalize (w.matchData n t d).2 = w₁ at matched
    split
    · exact quiet _ matched
    · have claimed : Effect [n.id] [] [] w₁ (w₁.claim n.id t.id n.config.policy).2 :=
        effect_claim w₁ List.mem_cons_self _ _
      have claimed := claimed.bodies.trans (List.append_nil _)
      split
      · rename_i is
        rw [is] at claimed
        exact quiet _ (claimed.trans matched)
      · rename_i claim w₂ is
        rw [is] at claimed
        have asked : Effect [] (n.guards.map (·.id)) [] w₂ (w₂.testAll n.guards t (.ofTrigger d)).2 :=
          effect_testAll w₂ n.guards t _ (List.Subset.refl _)
        have before := (asked.bodies.trans (List.append_nil _)).trans (claimed.trans matched)
        split
        · exact quiet _ before
        · let fired := ((w₂.testAll n.guards t (.ofTrigger d)).2.commit claim).enter n.id t.id .fired []
          let outcome := (w₂.testAll n.guards t (.ofTrigger d)).1.outcome
          obtain ⟨es, bodies, each⟩ :=
            executeEach_nodes n.actions t (.ofTrigger d) (fired.completed outcome).2
          refine ⟨es, bodies.trans (congrArg (· ++ es) ?_), each⟩
          exact (bodies_enter _ _ _ _ rfl).trans before

theorem fireEach_nodes (ns : List TriggerNode) (t : Target) (d : TriggerData) (w : World ν) :
    ∃ es, (w.fireEach ns t d).2.bodies = w.bodies ++ es ∧
      ∀ e ∈ es, ∃ n ∈ ns, ∃ m ∈ ActionNode.membersAll n.actions, e.node = m.id := by
  induction ns generalizing w with
  | nil => exact ⟨[], (List.append_nil _).symm, nofun⟩
  | cons n rest ih =>
    obtain ⟨es, bodies, each⟩ := fire_nodes w n t d
    obtain ⟨es', bodies', each'⟩ := ih (w.fire n t d).2
    refine ⟨es ++ es', ?_, fun e he => ?_⟩
    · rw [fireEach, bodies', bodies, List.append_assoc]
    · rcases List.mem_append.mp he with he | he
      · exact ⟨n, List.mem_cons_self, each e he⟩
      · obtain ⟨m, hm, node⟩ := each' e he
        exact ⟨m, List.mem_cons_of_mem _ hm, node⟩

end World

structure Effects (first : Nat) (items : List Item) (f : Forest) (w : World ν) (t : Target) :
    Prop where
  /-- Executed at once, it runs the actions before its first trigger that are to run in this world,
  in order and once each. -/
  execute : w.deferring = false → ∀ c, ∃ ks, InOrder (fun k => w.Runs t c items k ∧
      ∀ u < k, (Layout.kinds items)[u]? ≠ some .trigger) ks ∧
    (w.execute f t c).2.bodies = w.bodies ++ ks.map fun k => w.body t c (Layout.stepAt items k)
  /-- A trigger call runs actions only whose group has a trigger that answers. -/
  trigger : ∀ d, ∃ es, (w.trigger f t d).2.bodies = w.bodies ++ es ∧
    ∀ e ∈ es, ∃ k u n, e.node = ⟨first + k⟩ ∧ (Layout.kinds items)[k]? = some .action ∧
      Group (Layout.kinds items) u k ∧ items[u]? = some (.trigger n) ∧
        n.answersTo d.identifier = true

namespace Resolved

variable {r : Registry} {first : Nat} {ds : List Directive} {items : List Item}

open Classical in
theorem execute_bodies (h : Resolved r first ds items) {w : World ν} (immediate : w.deferring = false)
    (t : Target) (c : Context) :
    ∃ ks, InOrder (fun k => w.Runs t c items k ∧
          ∀ u < k, (Layout.kinds items)[u]? ≠ some .trigger) ks ∧
      (w.execute (Forest.ofItems items) t c).2.bodies =
        w.bodies ++ ks.map fun k => w.body t c (Layout.stepAt items k) := by
  obtain ⟨ps, order, _, bodies⟩ := Layout.ofItems_actions items w t c
  have run := (ActionNode.executeEach_immediate t c _ h.distinct w immediate).bodies
  refine ⟨ps.filter fun k => w.Runs t c items k, (order.filter _).congr fun k => ?_, ?_⟩
  · rw [decide_eq_true_iff]
    constructor
    · rintro ⟨⟨_, none⟩, runs⟩
      exact ⟨runs, none⟩
    · rintro ⟨runs, none⟩
      exact ⟨⟨runs.action, none⟩, runs⟩
  · refine run.trans (congrArg _ ?_)
    rw [bodies, List.map_map]
    refine List.map_congr_left fun k hk => ?_
    have action := ((order.mem k).mp (List.mem_of_mem_filter hk)).1
    rw [Function.comp_apply, Layout.guards_nodeAt action]
    rfl

theorem trigger_bodies (h : Resolved r first ds items) (w : World ν) (t : Target)
    (d : TriggerData) :
    ∃ es, (w.trigger (Forest.ofItems items) t d).2.bodies = w.bodies ++ es ∧
      ∀ e ∈ es, ∃ k u n, e.node = ⟨first + k⟩ ∧ (Layout.kinds items)[k]? = some .action ∧
        Group (Layout.kinds items) u k ∧ items[u]? = some (.trigger n) ∧
          n.answersTo d.identifier = true := by
  obtain ⟨es, bodies, each⟩ :=
    w.fireEach_nodes ((Forest.ofItems items).triggersFor d.identifier) t d
  refine ⟨es, bodies, fun e he => ?_⟩
  obtain ⟨_, hn, m, hm, node⟩ := each e he
  obtain ⟨inside, answers⟩ := List.mem_filter.mp hn
  obtain ⟨u, trigger, rfl⟩ := Layout.mem_triggers_ofItems.mp inside
  obtain ⟨k, action, group, rfl⟩ := (Layout.mem_members_trigger trigger).mp hm
  obtain ⟨n, here⟩ := Layout.trigger_of_kind trigger
  rw [Layout.triggerAt, here] at answers
  exact ⟨k, u, n, node.trans (h.id_nodeAt action), action, group, here, answers⟩

end Resolved

/-- A guarded run, an action whose guard fails for most, and two triggers with an action each. -/
def greeting : List String :=
  ["# at the door", "?health 5", "!heal 1", "!log(execute_once=true) first", "?named alex",
    "!log second", "@join", "?health 1", "!heal(cooldown=5s) 2", "@leave", "!skip"]

example :
    (Catalogue.registry.compileLines LineForm.standards greeting 0).toOption.map (fun f =>
      ((World.start ⟨0⟩ false : World Unit).execute f ⟨"steve", .player "steve" 20⟩
        .empty).2.bodies.map (·.node)) = some [⟨1⟩, ⟨2⟩] := by decide +kernel

end Cuescript
