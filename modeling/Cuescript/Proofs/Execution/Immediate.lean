import Cuescript.Proofs.Execution.Steps

/-!
Actions that run at once, without anything being put off. Every node has entries of its own in the
store, so what one of them does changes nothing for the others: which bodies run in a whole call
can be told from the store as it was before. Main statement: executing actions whose nodes are all
different runs their `bodies`, in order.
-/
namespace Cuescript

variable {ν : Type}

def Deed.isBody : Deed → Bool
  | .ran _ => true
  | _ => false

namespace World

def bodies (w : World ν) : List Entry := w.journal.filter (·.deed.isBody)

def body (w : World ν) (t : Target) (c : Context) (s : ActionStep) : Entry :=
  ⟨s.id, t.id, w.clock, .ran (w.runBody s t c).1, (s.action.body t.value c).notes⟩

def permits (w : World ν) (t : Target) (s : ActionStep) : Bool :=
  s.action.accepts = t.type && (w.claim s.id t.id s.config.policy).1.toBool

def holds (w : World ν) (t : Target) (c : Context) (gs : List RequirementNode) : Bool :=
  !(Outcome.all (gs.map fun g => (w.test g t c).1)).isFailure

end World

namespace ActionNode

mutual

def bodies (w : World ν) (t : Target) (c : Context) : ActionNode → List ActionStep
  | ⟨s, children⟩ =>
    if w.permits t s && w.holds t c s.guards then
      s :: if (w.runBody s t c).1.isFailure then [] else bodiesAll w t c children
    else []

def bodiesAll (w : World ν) (t : Target) (c : Context) : List ActionNode → List ActionStep
  | [] => []
  | n :: rest => bodies w t c n ++ bodiesAll w t c rest

end

def actIds (ns : List ActionNode) : List NodeId := (membersAll ns).map (·.id)

def guardIds (ns : List ActionNode) : List NodeId :=
  (membersAll ns).flatMap fun m => m.step.guards.map (·.id)

/-- No two actions in a list have one id, and no two guards. -/
structure Distinct (ns : List ActionNode) : Prop where
  acts : (actIds ns).Nodup
  guards : (guardIds ns).Nodup

theorem actIds_cons (s : ActionStep) (children rest : List ActionNode) :
    actIds (⟨s, children⟩ :: rest) = s.id :: (actIds children ++ actIds rest) := by
  simp [actIds, membersAll, members, id]

theorem guardIds_cons (s : ActionStep) (children rest : List ActionNode) :
    guardIds (⟨s, children⟩ :: rest) =
      s.guards.map (·.id) ++ (guardIds children ++ guardIds rest) := by
  simp [guardIds, membersAll, members]

end ActionNode

namespace World

/-- What happened between two worlds: claims of the actions in `acts` at most, passes of the
requirements in `guards` at most, and the running of `es`. -/
structure Effect (acts guards : List NodeId) (es : List Entry) (w w' : World ν) : Prop where
  clock : w'.clock = w.clock
  deferring : w'.deferring = w.deferring
  record : ∀ p : Pair, p.1 ∉ acts → w'.store.record p = w.store.record p
  passed : ∀ p : Pair, p.1 ∉ guards → w'.store.hasPassed p = w.store.hasPassed p
  bodies : w'.bodies = w.bodies ++ es

variable {acts guards : List NodeId}

namespace Effect

variable {acts' guards' : List NodeId} {es es' : List Entry} {w w' w'' : World ν}

theorem refl (w : World ν) : Effect acts guards [] w w :=
  ⟨rfl, rfl, fun _ _ => rfl, fun _ _ => rfl, (List.append_nil _).symm⟩

theorem futures (w : World ν) (futures : Futures ν) :
    Effect acts guards [] w { w with futures := futures } :=
  ⟨rfl, rfl, fun _ _ => rfl, fun _ _ => rfl, (List.append_nil _).symm⟩

theorem trans (f : Effect acts guards es w w') (g : Effect acts guards es' w' w'') :
    Effect acts guards (es ++ es') w w'' where
  clock := g.clock.trans f.clock
  deferring := g.deferring.trans f.deferring
  record := fun p not => (g.record p not).trans (f.record p not)
  passed := fun p not => (g.passed p not).trans (f.passed p not)
  bodies := by rw [g.bodies, f.bodies, List.append_assoc]

theorem andThen (f : Effect acts guards es w w') (g : Effect acts guards [] w' w'') :
    Effect acts guards es w w'' :=
  List.append_nil es ▸ f.trans g

theorem mono (f : Effect acts guards es w w') (more : acts ⊆ acts') (more' : guards ⊆ guards') :
    Effect acts' guards' es w w' :=
  ⟨f.clock, f.deferring, fun p not => f.record p fun h => not (more h),
    fun p not => f.passed p fun h => not (more' h), f.bodies⟩

end Effect

theorem bodies_enter (w : World ν) (i : NodeId) (t : String) {d : Deed} (notes : List String)
    (other : d.isBody = false) : (w.enter i t d notes).bodies = w.bodies := by
  simp [bodies, enter, other]

theorem effect_completed (w : World ν) (o : Outcome) :
    Effect acts guards [] w (w.completed o).2 := .futures w _

theorem effect_all (w : World ν) (fs : List FutureId) : Effect acts guards [] w (w.all fs).2 :=
  .futures w _

theorem effect_claim (w : World ν) {i : NodeId} (concerned : i ∈ acts) (t : String) (p : Policy) :
    Effect acts guards [] w (w.claim i t p).2 := by
  have record : ∀ pair : Pair, pair.1 ∉ acts →
      (w.claim i t p).2.store.record pair = w.store.record pair := by
    intro pair not
    rw [record_claim, if_neg]
    rintro ⟨rfl, _⟩
    exact not concerned
  have passed := w.store.passed_claim (i, t) p w.clock
  cases is : (w.claim i t p).1 with
  | error d =>
    rw [claim_refused is] at record ⊢
    exact ⟨rfl, rfl, record, fun pair _ => by rw [Store.hasPassed, passed]; rfl,
      (List.append_nil _).symm⟩
  | ok c =>
    rw [claim_granted is] at record ⊢
    exact ⟨rfl, rfl, record, fun pair _ => by rw [store_enter, Store.hasPassed, passed]; rfl,
      (bodies_enter _ _ _ _ rfl).trans (List.append_nil _).symm⟩

theorem effect_commit (w : World ν) {c : Claim} (concerned : c.pair.1 ∈ acts) :
    Effect acts guards [] w (w.commit c) := by
  refine ⟨rfl, rfl, fun p not => ?_, fun p _ => ?_, (List.append_nil _).symm⟩
  · rw [record_commit, if_neg]
    rintro ⟨_, rfl⟩
    exact not concerned
  · rw [commit, Store.hasPassed, Store.passed_commit]
    rfl

theorem effect_release (w : World ν) {c : Claim} (concerned : c.pair.1 ∈ acts) :
    Effect acts guards [] w (w.release c) := by
  refine ⟨rfl, rfl, fun p not => ?_, fun p _ => ?_, (List.append_nil _).symm⟩
  · rw [record_release, if_neg]
    rintro ⟨_, rfl⟩
    exact not concerned
  · rw [release, Store.hasPassed, Store.passed_release]
    rfl

theorem effect_runBody (w : World ν) (s : ActionStep) (t : Target) (c : Context) :
    Effect acts guards [w.body t c s] w (w.runBody s t c).2 := by
  refine ⟨rfl, rfl, fun _ _ => rfl, fun _ _ => rfl, ?_⟩
  simp [bodies, runBody, enter, body, Deed.isBody]

theorem test_fst (w : World ν) (n : RequirementNode) (t : Target) (c : Context) :
    (w.test n t c).1 =
      if n.requirement.accepts ≠ t.type then .empty
      else if n.config.checkOnce && w.store.hasPassed (n.id, t.id) then .passed
      else effective n.config (n.requirement.test t.value c).result := by
  rw [test]
  split
  · rfl
  · split
    · rfl
    · dsimp only
      split <;> rfl

theorem effect_test (w : World ν) {n : RequirementNode} (concerned : n.id ∈ guards) (t : Target)
    (c : Context) : Effect acts guards [] w (w.test n t c).2 := by
  have asked : ∀ o notes, Effect acts guards [] w (w.enter n.id t.id (.tested o) notes) := by
    intro o notes
    exact ⟨rfl, rfl, fun _ _ => rfl, fun _ _ => rfl,
      (w.bodies_enter _ _ _ rfl).trans (List.append_nil _).symm⟩
  rw [test]
  split
  · exact .refl w
  · split
    · exact .refl w
    · dsimp only
      split
      · refine ⟨rfl, rfl, fun _ _ => rfl, fun p not => ?_, (asked _ _).bodies⟩
        refine Store.hasPassed_markPassed _ _ p _ ?_
        rintro rfl
        exact not concerned
      · exact asked ..

theorem test_congr {w w' : World ν} {n : RequirementNode} {t : Target} (c : Context)
    (same : w'.store.hasPassed (n.id, t.id) = w.store.hasPassed (n.id, t.id)) :
    (w'.test n t c).1 = (w.test n t c).1 := by
  rw [test_fst, test_fst, same]

theorem testAll_relates {R : World ν → World ν → Prop} {ns : List RequirementNode} {t : Target}
    {c : Context} (each : ∀ n ∈ ns, ∀ {w v}, R w v →
      (v.test n t c).1 = (w.test n t c).1 ∧ R (w.test n t c).2 (v.test n t c).2)
    {w v : World ν} (related : R w v) :
    (v.testAll ns t c).1 = (w.testAll ns t c).1 ∧ R (w.testAll ns t c).2 (v.testAll ns t c).2 := by
  have answers : (v.testEach ns t c).1 = (w.testEach ns t c).1 ∧
      R (w.testEach ns t c).2 (v.testEach ns t c).2 := by
    induction ns generalizing w v with
    | nil => exact ⟨rfl, related⟩
    | cons n rest ih =>
      obtain ⟨here, behind⟩ := List.forall_mem_cons.mp each
      obtain ⟨first, related⟩ := here related
      obtain ⟨others, related⟩ := ih behind related
      exact ⟨congrArg₂ List.cons first others, related⟩
  exact ⟨congrArg Combined.mk answers.1, answers.2⟩

theorem effect_testAll (w : World ν) (ns : List RequirementNode) (t : Target) (c : Context)
    (concerned : ns.map (·.id) ⊆ guards) : Effect acts guards [] w (w.testAll ns t c).2 := by
  rw [testAll]
  induction ns generalizing w with
  | nil => exact .refl w
  | cons n rest ih =>
    obtain ⟨own, behind⟩ := List.cons_subset.mp concerned
    exact (effect_test w own t c).andThen (ih (w.test n t c).2 behind)

theorem testEach_fst (w : World ν) (ns : List RequirementNode) (t : Target) (c : Context)
    (distinct : (ns.map (·.id)).Nodup) :
    (w.testEach ns t c).1 = ns.map fun g => (w.test g t c).1 := by
  induction ns generalizing w with
  | nil => rfl
  | cons n rest ih =>
    obtain ⟨fresh, others⟩ := List.nodup_cons.mp distinct
    have first : Effect [] [n.id] [] w (w.test n t c).2 := effect_test w List.mem_cons_self t c
    refine congrArg _ ((ih _ others).trans (List.map_congr_left fun g hg => test_congr c ?_))
    refine first.passed _ fun same => ?_
    exact fresh (List.mem_map.mpr ⟨g, hg, List.mem_singleton.mp same⟩)

theorem isFailure_testAll (w : World ν) (ns : List RequirementNode) (t : Target) (c : Context)
    (distinct : (ns.map (·.id)).Nodup) : (w.testAll ns t c).1.isFailure = !w.holds t c ns := by
  rw [holds, Bool.not_not, ← testEach_fst w ns t c distinct]
  exact Combined.isFailure_outcome _

namespace Effect

variable {es : List Entry} {w w' : World ν}

theorem permits (f : Effect acts guards es w w') {t : Target} {s : ActionStep}
    (apart : s.id ∉ acts) : w'.permits t s = w.permits t s := by
  rw [World.permits, World.permits, claim_fst, claim_fst, f.clock,
    Store.claim_congr (f.record (s.id, t.id) apart)]

theorem holds (f : Effect acts guards es w w') {t : Target} {c : Context}
    {gs : List RequirementNode} (apart : ∀ g ∈ gs, g.id ∉ guards) :
    w'.holds t c gs = w.holds t c gs := by
  have each : ∀ g ∈ gs, (w'.test g t c).1 = (w.test g t c).1 := fun g hg =>
    test_congr c (f.passed (g.id, t.id) (apart g hg))
  rw [World.holds, World.holds, List.map_congr_left each]

theorem body (f : Effect acts guards es w w') (t : Target) (c : Context) :
    w'.body t c = w.body t c := by
  funext s
  rw [World.body, World.body, f.clock]
  rfl

theorem bodiesAll (f : Effect acts guards es w w') (t : Target) (c : Context)
    (ns : List ActionNode) :
    (∀ i ∈ ActionNode.actIds ns, i ∉ acts) → (∀ i ∈ ActionNode.guardIds ns, i ∉ guards) →
      ActionNode.bodiesAll w' t c ns = ActionNode.bodiesAll w t c ns := by
  induction ns using ActionNode.list_induction with
  | nil => exact fun _ _ => rfl
  | cons s children rest below behind =>
    rw [ActionNode.actIds_cons, ActionNode.guardIds_cons]
    intro apart apart'
    simp only [List.mem_cons, List.mem_append, or_imp, forall_and, forall_eq] at apart apart'
    have own : ∀ g ∈ s.guards, g.id ∉ guards := fun g hg =>
      apart'.1 g.id (List.mem_map_of_mem hg)
    have outcome : (w'.runBody s t c).1 = (w.runBody s t c).1 := rfl
    simp only [ActionNode.bodiesAll, ActionNode.bodies, f.permits apart.1, f.holds own, outcome,
      below apart.2.1 apart'.2.1, behind apart.2.2 apart'.2.2]

end Effect

/-- Without deferring, an action that is permitted and whose guards hold goes on to its body; any
other does nothing. -/
theorem attempt_immediate {w : World ν} (immediate : w.deferring = false) {s : ActionStep}
    (t : Target) (c : Context) (distinct : (s.guards.map (·.id)).Nodup) (own : s.id ∈ acts)
    (concerned : s.guards.map (·.id) ⊆ guards)
    (run later : Claim → World ν → FutureId × World ν) :
    (∃ w', Effect acts guards [] w w' ∧ w.attempt s t c run later = run (s.claim t) w' ∧
        (w.permits t s && w.holds t c s.guards) = true) ∨
      Effect acts guards [] w (w.attempt s t c run later).2 ∧
        (w.permits t s && w.holds t c s.guards) = false := by
  rw [attempt]
  split
  · rename_i other
    exact .inr ⟨effect_completed .., by simp [permits, other]⟩
  · rename_i accepts
    have claimed : Effect acts guards [] w (w.claim s.id t.id s.config.policy).2 :=
      effect_claim w own t.id s.config.policy
    -- The claim leaves the passes of all requirements alone.
    have apart : Effect acts [] [] w (w.claim s.id t.id s.config.policy).2 :=
      effect_claim w own t.id s.config.policy
    split
    · rename_i d w' is
      rw [is] at claimed
      exact .inr ⟨claimed.andThen (effect_completed ..), by simp [permits, is, Except.toBool]⟩
    · rename_i claim w' is
      have granted : (w.claim s.id t.id s.config.policy).1 = .ok claim := by rw [is]
      obtain rfl := claim_eq_of granted
      rw [is] at claimed apart
      have asked : Effect acts guards [] w' (w'.testAll s.guards t c).2 :=
        effect_testAll w' s.guards t c concerned
      have verdict := isFailure_testAll w' s.guards t c distinct
      rw [apart.holds fun _ _ => List.not_mem_nil] at verdict
      have permitted : w.permits t s = true := by
        simpa [permits, granted, Except.toBool] using accepts
      have now : (w'.testAll s.guards t c).2.deferring = false := by
        rw [asked.deferring, claimed.deferring, immediate]
      dsimp only
      rw [now]
      split
      · rename_i fails
        refine .inr ⟨?_, by simpa [permitted, fails] using verdict⟩
        exact ((claimed.andThen asked).andThen (effect_release _ own)).andThen (effect_completed ..)
      · rename_i succeeds
        exact .inl ⟨_, claimed.andThen asked, rfl, by simpa [permitted, succeeds] using verdict⟩

end World

namespace ActionNode

open World

theorem Distinct.split {s : ActionStep} {children rest : List ActionNode}
    (distinct : Distinct (⟨s, children⟩ :: rest)) :
    Distinct children ∧ Distinct rest ∧ (s.guards.map (·.id)).Nodup ∧
      (∀ i ∈ actIds children, i ∉ [s.id]) ∧
      (∀ i ∈ guardIds children, i ∉ s.guards.map (·.id)) ∧
      (∀ i ∈ actIds rest, i ∉ s.id :: actIds children) ∧
      ∀ i ∈ guardIds rest, i ∉ s.guards.map (·.id) ++ guardIds children := by
  obtain ⟨acts, guards⟩ := distinct
  rw [actIds_cons, List.nodup_cons, List.nodup_append] at acts
  rw [guardIds_cons, List.nodup_append, List.nodup_append] at guards
  obtain ⟨own, below, behind, apart⟩ := acts
  obtain ⟨own', ⟨below', behind', apart'⟩, others⟩ := guards
  refine ⟨⟨below, below'⟩, ⟨behind, behind'⟩, own', ?_, ?_, ?_, ?_⟩
  · intro i hi same
    rw [List.mem_singleton.mp same] at hi
    exact own (List.mem_append_left _ hi)
  · intro i hi same
    exact others i same i (List.mem_append_left _ hi) rfl
  · intro i hi same
    rcases List.mem_cons.mp same with rfl | inside
    · exact own (List.mem_append_right _ hi)
    · exact apart i inside i hi rfl
  · intro i hi same
    rcases List.mem_append.mp same with inside | inside
    · exact others i inside i (List.mem_append_right _ hi) rfl
    · exact apart' i inside i hi rfl

theorem execute_immediate {s : ActionStep} {children : List ActionNode} {t : Target} {c : Context}
    (guards : (s.guards.map (·.id)).Nodup) (acts : ∀ i ∈ actIds children, i ∉ [s.id])
    (apart : ∀ i ∈ guardIds children, i ∉ s.guards.map (·.id))
    (below : ∀ w : World ν, w.deferring = false →
      Effect (actIds children) (guardIds children) ((bodiesAll w t c children).map (w.body t c)) w
        (executeEach children t c w).2) {w : World ν} (immediate : w.deferring = false) :
    Effect (s.id :: actIds children) (s.guards.map (·.id) ++ guardIds children)
      ((bodies w t c ⟨s, children⟩).map (w.body t c)) w (execute ⟨s, children⟩ t c w).2 := by
  have more : [s.id] ⊆ s.id :: actIds children := by simp
  have more' : s.guards.map (·.id) ⊆ s.guards.map (·.id) ++ guardIds children := by simp
  rw [execute, bodies]
  rcases attempt_immediate immediate t c guards List.mem_cons_self (List.Subset.refl _)
      (fun claim w => run ⟨s, children⟩ t c claim w)
      (fun claim w => w.defer ⟨s, children⟩ t c claim) with ⟨w', before, is, goes⟩ | ⟨effect, stops⟩
  · rw [is, goes, if_pos rfl]
    -- The body, and what happens to the claim after it.
    have own : Effect [s.id] (s.guards.map (·.id)) [w.body t c s] w (w'.runBody s t c).2 :=
      before.body t c ▸ before.trans (effect_runBody w' s t c)
    have outcome : (w'.runBody s t c).1 = (w.runBody s t c).1 := rfl
    simp only [run, outcome]
    split
    · have released := own.andThen (effect_release _ (c := s.claim t) List.mem_cons_self)
      exact (released.andThen (effect_completed ..)).mono more more'
    · have committed := own.andThen (effect_commit _ (c := s.claim t) List.mem_cons_self)
      have done := committed.andThen (effect_completed _ (w.runBody s t c).1)
      have next := below _ (done.deferring.trans immediate)
      rw [done.bodiesAll t c children acts apart, done.body] at next
      refine .andThen (.trans (done.mono more more') (next.mono ?_ ?_)) (effect_all ..)
      · exact List.subset_cons_self ..
      · exact List.subset_append_right ..
  · rw [stops]
    exact effect.mono more more'

theorem executeEach_immediate (t : Target) (c : Context) (ns : List ActionNode) :
    Distinct ns → ∀ w : World ν, w.deferring = false →
      Effect (actIds ns) (guardIds ns) ((bodiesAll w t c ns).map (w.body t c)) w
        (executeEach ns t c w).2 := by
  induction ns using list_induction with
  | nil => exact fun _ w _ => .refl w
  | cons step children rest below behind =>
    intro distinct w immediate
    obtain ⟨inside, others, guards, acts, apart, acts', apart'⟩ := distinct.split
    have first := execute_immediate guards acts apart (below inside) immediate
    have next := behind others _ (first.deferring.trans immediate)
    rw [first.bodiesAll t c rest acts' apart', first.body] at next
    rw [executeEach_cons, bodiesAll, List.map_append, actIds_cons, guardIds_cons,
      ← List.cons_append, ← List.append_assoc]
    refine .trans (first.mono ?_ ?_) (next.mono ?_ ?_)
    · exact List.subset_append_left ..
    · exact List.subset_append_left ..
    · exact List.subset_append_right ..
    · exact List.subset_append_right ..

end ActionNode

end Cuescript
