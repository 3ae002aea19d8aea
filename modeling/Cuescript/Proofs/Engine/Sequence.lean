import Cuescript.Catalogue.Actions
import Cuescript.Catalogue.Conditions
import Cuescript.Proofs.Engine.Announcements
import Cuescript.Proofs.Engine.Loading
import Cuescript.Proofs.Execution.Prompt

/-!
Scripts in sequence. An engine visits the nodes of all its scripts in one go, passes over those that
take another target, and joins all futures at once; if its scripts are triggered one by one, these
nodes answer with nothing, and the futures of each script are joined first. Main statement: when all
scripts run their actions and nothing is put off, both come to the same, and the order of the
scripts is of no concern but for the order of messages and bodies.
-/
namespace Cuescript

namespace Forest

def Region (f : Forest) : Pair → Prop := fun p => f.Uses p.1

theorem within_fires {P : Pair → Prop} {t : Target} {f : Forest}
    (own : ∀ i, f.Uses i → P (i, t.id)) (d : TriggerData) :
    ∀ e ∈ (f.triggersFor d.identifier).map (Errand.fire · d), e.Within P t := by
  intro e member
  obtain ⟨n, answers, rfl⟩ := List.mem_map.mp member
  have listed : n ∈ f.triggers := (List.mem_filter.mp answers).1
  refine ⟨?_, fun m below => ?_⟩
  · have uses := uses_of_guarded
      (List.mem_append_right _ (List.mem_map.mpr ⟨n, listed, rfl⟩) : (n.id, n.guards) ∈ f.guarded)
    exact ⟨own _ uses.1, fun g guard => own _ (uses.2 g guard)⟩
  · have inside : m ∈ f.members := mem_members.mpr (.inr ⟨n, listed, below⟩)
    have uses := uses_of_guarded
      (List.mem_append_left _ (List.mem_map.mpr ⟨m, inside, rfl⟩) :
        (m.id, m.step.guards) ∈ f.guarded)
    exact ⟨own _ uses.1, fun g guard => own _ (uses.2 g guard)⟩

end Forest

abbrev Everywhere : Pair → Prop := fun _ => True

namespace World

variable {ν : Type} {P : Pair → Prop} {w w' w'' v v' v'' : World ν} {t : Target} {d : TriggerData}
  {fs fs' gs gs' : List FutureId}

theorem agreeOn_everywhere (cover : ∀ p, ∃ P : Pair → Prop, P p ∧ AgreeOn P w v) :
    AgreeOn Everywhere w v := by
  obtain ⟨_, _, some_agree⟩ := cover default
  refine ⟨some_agree.clock, some_agree.deferring, ⟨fun p _ => ?_, fun p _ => ?_⟩⟩
  · obtain ⟨P, inside, agree⟩ := cover p
    exact agree.store.records p inside
  · obtain ⟨P, inside, agree⟩ := cover p
    exact agree.store.passed p inside

def triggerEach (w : World ν) (t : Target) (d : TriggerData) : List Forest → List FutureId × World ν
  | [] => ([], w)
  | f :: rest =>
    let (g, w) := w.trigger f t d
    let (gs, w) := w.triggerEach t d rest
    (g :: gs, w)

theorem Prompt.note {os : List Outcome} {bs : List Entry} {f : FutureId}
    (prompt : Prompt w w' fs os bs) (member : f ∈ fs) (label : ν) :
    Prompt w (w'.onComplete f (.note label)) fs os bs where
  deferring := prompt.deferring
  bodies := prompt.bodies
  grows ways wired := by
    obtain ⟨more, es, grows, known⟩ := prompt.grows ways wired
    exact ⟨more, es, grows.note member label, known⟩

theorem fire_determined {n : TriggerNode} (now : w.deferring = false)
    (own : (Errand.fire n d).Within P t) :
    ∃ o bs, ∀ v, AgreeOn P w v → Prompt v (v.fire n t d).2 [(v.fire n t d).1] [o] bs ∧
      AgreeOn P (w.fire n t d).2 (v.fire n t d).2 :=
  call_determined (m := .fire n t d) rfl (fun _ => ⟨rfl, rfl⟩) now
    (List.forall_mem_singleton.mpr own)

theorem trigger_determined {f : Forest} (now : w.deferring = false)
    (own : ∀ i, f.Uses i → P (i, t.id)) (d : TriggerData) :
    ∃ o bs, ∀ v, AgreeOn P w v → Prompt v (v.trigger f t d).2 [(v.trigger f t d).1] [o] bs ∧
      AgreeOn P (w.trigger f t d).2 (v.trigger f t d).2 :=
  call_determined (m := .trigger f t d) rfl (fun _ => ⟨rfl, rfl⟩) now (Forest.within_fires own d)

theorem trigger_outside {f : Forest} (other : ∀ i, f.Uses i → ¬ P (i, t.id)) (w : World ν)
    (d : TriggerData) : AgreeOn P w (w.trigger f t d).2 :=
  call_outside (m := .trigger f t d) rfl (Forest.within_fires other d) w

/-- Two runs come to the same: the conjunctions of their outcomes, the bodies that ran, and what is
remembered. -/
def Concur (w w' : World ν) (fs : List FutureId) (v v' : World ν) (gs : List FutureId) : Prop :=
  ∃ os os' bs, Prompt w w' fs os bs ∧ Prompt v v' gs os' bs ∧
    Outcome.all os = Outcome.all os' ∧ AgreeOn Everywhere w' v'

namespace Concur

theorem nothing (agree : AgreeOn Everywhere w v) : Concur w w [] v v [] :=
  ⟨[], [], [], .nothing w, .nothing v, rfl, agree⟩

theorem agree (concur : Concur w w' fs v v' gs) : AgreeOn Everywhere w' v' := by
  obtain ⟨_, _, _, _, _, _, agree⟩ := concur
  exact agree

theorem deferring (concur : Concur w w' fs v v' gs) : w'.deferring = w.deferring := by
  obtain ⟨_, _, _, prompt, _⟩ := concur
  exact prompt.deferring

theorem append (first : Concur w w' fs v v' gs) (second : Concur w' w'' fs' v' v'' gs') :
    Concur w w'' (fs ++ fs') v v'' (gs ++ gs') := by
  obtain ⟨os, os', bs, prompt, prompt', same, _⟩ := first
  obtain ⟨more, more', _, others, others', same', agree⟩ := second
  refine ⟨_, _, _, prompt.append others, prompt'.append others', ?_, agree⟩
  rw [Outcome.all_append, Outcome.all_append, same, same']

theorem join (concur : Concur w w' fs v v' gs) :
    Concur w w' fs v (v'.all gs).2 [(v'.all gs).1] := by
  obtain ⟨os, os', bs, prompt, prompt', same, agree⟩ := concur
  refine ⟨_, _, _, prompt, prompt'.all, ?_, agree.trans (agreeOn_futures ..)⟩
  rw [same, Outcome.all_cons]
  exact (Outcome.both_empty _).symm

end Concur

/-! Forests that have no node id in common. -/

theorem triggerEach_outside {fs : List Forest} (other : ∀ f ∈ fs, ∀ i, f.Uses i → ¬ P (i, t.id))
    (w : World ν) (d : TriggerData) : AgreeOn P w (w.triggerEach t d fs).2 := by
  induction fs generalizing w with
  | nil => exact .refl P w
  | cons f rest ih =>
    obtain ⟨here, others⟩ := List.forall_mem_cons.mp other
    exact (trigger_outside here w d).trans (ih others _)

/-- What each of the forests comes to in its turn is what it comes to at first. -/
theorem triggerEach_apart {fs : List Forest} {outcome : Forest → Outcome}
    {ran : Forest → List Entry}
    (determined : ∀ f v, AgreeOn f.Region w v →
      Prompt v (v.trigger f t d).2 [(v.trigger f t d).1] [outcome f] (ran f) ∧
        AgreeOn f.Region (w.trigger f t d).2 (v.trigger f t d).2)
    (apart : fs.Pairwise fun f f' => ∀ i, f.Uses i → ¬ f'.Uses i)
    (agree : ∀ f ∈ fs, AgreeOn f.Region w v) :
    Prompt v (v.triggerEach t d fs).2 (v.triggerEach t d fs).1 (fs.map outcome) (fs.flatMap ran) ∧
      ∀ f ∈ fs, AgreeOn f.Region (w.trigger f t d).2 (v.triggerEach t d fs).2 := by
  induction fs generalizing v with
  | nil => exact ⟨.nothing v, List.forall_mem_nil _⟩
  | cons f rest ih =>
    obtain ⟨here, others⟩ := List.forall_mem_cons.mp agree
    obtain ⟨first, after⟩ := determined f v here
    obtain ⟨foreign, apart⟩ := List.pairwise_cons.mp apart
    -- The first forest is of no concern to the others, nor are they to it.
    have untouched (f' : Forest) (member : f' ∈ rest) :
        AgreeOn f'.Region w (v.trigger f t d).2 :=
      (others f' member).trans (trigger_outside (foreign f' member) v d)
    have kept : AgreeOn f.Region (v.trigger f t d).2 ((v.trigger f t d).2.triggerEach t d rest).2 :=
      triggerEach_outside (fun f' member i uses own => foreign f' member i own uses) _ d
    obtain ⟨behind, each⟩ := ih apart untouched
    exact ⟨first.append behind, List.forall_mem_cons.mpr ⟨after.trans kept, each⟩⟩

theorem triggerEach_perm {fs fs' : List Forest} (now : w.deferring = false)
    (apart : fs.Pairwise fun f f' => ∀ i, f.Uses i → ¬ f'.Uses i) (same : fs.Perm fs') (t : Target)
    (d : TriggerData) :
    ∃ os os' bs bs', Prompt w (w.triggerEach t d fs).2 (w.triggerEach t d fs).1 os bs ∧
      Prompt w (w.triggerEach t d fs').2 (w.triggerEach t d fs').1 os' bs' ∧
      os.Perm os' ∧ bs.Perm bs' ∧
      AgreeOn Everywhere (w.triggerEach t d fs).2 (w.triggerEach t d fs').2 := by
  have each (f : Forest) := trigger_determined (P := f.Region) (t := t) now (fun _ uses => uses) d
  -- What each forest comes to is fixed by the world before all of them, and so in every order.
  choose outcome ran determined using each
  have apart' : fs'.Pairwise fun f f' => ∀ i, f.Uses i → ¬ f'.Uses i :=
    same.pairwise apart fun differ i own uses => differ i uses own
  obtain ⟨prompt, each⟩ := triggerEach_apart determined apart fun f _ => .refl f.Region w
  obtain ⟨prompt', each'⟩ := triggerEach_apart determined apart' fun f _ => .refl f.Region w
  refine ⟨_, _, _, _, prompt, prompt', same.map outcome, same.flatMap_right ran, ?_⟩
  refine agreeOn_everywhere fun p => ?_
  by_cases used : ∃ f ∈ fs, f.Uses p.1
  · obtain ⟨f, member, uses⟩ := used
    exact ⟨f.Region, uses, (each f member).symm.trans (each' f (same.mem_iff.mp member))⟩
  · -- A pair that is of no forest stays as it was.
    have unused (f : Forest) (member : f ∈ fs) (i : NodeId) (uses : f.Uses i) : ¬ i = p.1 := by
      rintro rfl
      exact used ⟨f, member, uses⟩
    refine ⟨fun q => q.1 = p.1, rfl, ?_⟩
    exact (triggerEach_outside unused w d).symm.trans
      (triggerEach_outside (fun f member => unused f (same.mem_iff.mpr member)) w d)

end World

namespace Engine

open World

variable {w v : World Announcement} {s : Script} {t : Target}

/-! The nodes of scripts that run their actions. -/

theorem reach_concur (now : w.deferring = false) (agree : AgreeOn Everywhere w v)
    (runs : s.settings.executeActions = true) (n : TriggerNode) (t : Target) (d : TriggerData) :
    Concur w (reach w s n t d).2 [(reach w s n t d).1] v (v.fire n t d).2 [(v.fire n t d).1] := by
  have own : (Errand.fire n d).Within Everywhere t :=
    ⟨⟨trivial, fun _ _ => trivial⟩, fun _ _ => ⟨trivial, fun _ _ => trivial⟩⟩
  obtain ⟨o, bs, determined⟩ := fire_determined now own
  obtain ⟨here, _⟩ := determined w (.refl _ w)
  obtain ⟨there, after⟩ := determined v agree
  rw [reach_eq, answer, if_pos runs]
  exact ⟨[o], [o], bs, here.note (List.mem_singleton_self _) _, there, rfl,
    (agreeOn_futures ..).symm.trans after⟩

/-- To pass over a node comes to the same as to fire it in vain. -/
theorem reachEach_concur (now : w.deferring = false) (agree : AgreeOn Everywhere w v)
    (runs : s.settings.executeActions = true) (t : Target) (d : TriggerData)
    (ns : List TriggerNode) :
    let reached := reachEach w s t d (ns.filter fun n => n.trigger.accepts = t.type)
    Concur w reached.2 reached.1 v (v.fireEach ns t d).2 (v.fireEach ns t d).1 := by
  induction ns generalizing w v with
  | nil => exact .nothing agree
  | cons n rest ih =>
    by_cases accepts : n.trigger.accepts = t.type
    · have kept : (n :: rest).filter (fun n => n.trigger.accepts = t.type) =
          n :: rest.filter fun n => n.trigger.accepts = t.type := by simp [accepts]
      rw [kept]
      have first := reach_concur now agree runs n t d
      exact first.append (ih (first.deferring.trans now) first.agree)
    · have passed : (n :: rest).filter (fun n => n.trigger.accepts = t.type) =
          rest.filter fun n => n.trigger.accepts = t.type := by simp [accepts]
      rw [passed]
      have vain : v.fire n t d = v.completed .empty := by rw [fire, if_pos accepts]
      have first : Concur w w [] v (v.fire n t d).2 [(v.fire n t d).1] := by
        rw [vain]
        exact ⟨[], [.empty], [], .nothing w, .completed v .empty, rfl,
          agree.trans (agreeOn_futures ..)⟩
      exact first.append (ih now first.agree)

theorem visit_concur {ss : List Script} (now : w.deferring = false)
    (agree : AgreeOn Everywhere w v) (run : ∀ s ∈ ss, s.settings.executeActions = true) (t : Target)
    (d : TriggerData) :
    Concur w (visit w t d ss).2 (visit w t d ss).1 v (v.triggerEach t d (ss.map (·.forest))).2
      (v.triggerEach t d (ss.map (·.forest))).1 := by
  induction ss generalizing w v with
  | nil => exact .nothing agree
  | cons s rest ih =>
    obtain ⟨here, others⟩ := List.forall_mem_cons.mp run
    have first := (reachEach_concur now agree here t d (s.forest.triggersFor d.identifier)).join
    exact first.append (ih (first.deferring.trans now) first.agree others)

def triggerInTurn (e : Engine) (t : Target) (d : TriggerData) :
    List FutureId × World Announcement :=
  e.world.triggerEach t d (e.scripts.values.map (·.forest))

def withScripts (e : Engine) (scripts : Table String Script) : Engine := { e with scripts }

/-- A call comes to what the scripts come to in turn: its outcome is the conjunction of theirs, the
same bodies run, and the same is remembered. -/
structure InTurn (e : Engine) (v : Native) (t : Target) (d : TriggerData) : Prop where
  outcome : ∃ os : List Outcome,
    (e.triggerInTurn t d).1.map (e.triggerInTurn t d).2.futures.value? = os.map some ∧
      (e.triggerWith v d).2.world.futures.value? (e.triggerWith v d).1 = some (Outcome.all os)
  bodies : (e.triggerWith v d).2.world.bodies = (e.triggerInTurn t d).2.bodies
  store : (e.triggerWith v d).2.world.store.SameOn Everywhere (e.triggerInTurn t d).2.store

/-- Two calls differ in the order of messages and bodies at most. -/
structure Rearranged (r r' : FutureId × Engine) : Prop where
  outcome : ∃ o o', r.2.world.futures.value? r.1 = some o ∧
    r'.2.world.futures.value? r'.1 = some o' ∧ o.status = o'.status ∧ o.messages.Perm o'.messages
  bodies : r.2.world.bodies.Perm r'.2.world.bodies
  store : r.2.world.store.SameOn Everywhere r'.2.world.store

variable {e : Engine} {v : Native} {d : TriggerData}

theorem triggerWith_in_turn (reachable : e.Reachable) (now : e.world.deferring = false)
    (dispatched : ∀ s ∈ e.scripts.values,
      e.isDispatched s = true ∧ s.settings.executeActions = true)
    (wraps : e.adapters.wrap v = some t) (d : TriggerData) : InTurn e v t d := by
  obtain ⟨ways, engaged⟩ := reachable.sound.engaged
  have all : e.scripts.values.filter e.isDispatched = e.scripts.values :=
    List.filter_eq_self.mpr fun s member => (dispatched s member).1
  obtain ⟨os, os', bs, prompt, prompt', same, agree⟩ :=
    visit_concur now (.refl Everywhere e.world) (fun s member => (dispatched s member).2) t d
  have called : e.triggerWith v d =
      (let done := visit e.world t d e.scripts.values
       let joined := done.2.all done.1
       (joined.1, { e with world := joined.2 }.publish)) := by
    rw [triggerWith, wraps]
    dsimp only
    rw [all]
  have values := prompt.all.values engaged.wired
  refine ⟨⟨os', prompt'.values engaged.wired, ?_⟩, ?_, ?_⟩
  · rw [called, ← same]
    exact (List.cons.inj values).1
  · rw [called]
    exact prompt.bodies.trans prompt'.bodies.symm
  · rw [called]
    exact agree.store

theorem rearranged_in_turn {scripts : Table String Script} (reachable : e.Reachable)
    (now : e.world.deferring = false)
    (apart : e.scripts.values.Pairwise fun s s' => ∀ i, s.forest.Uses i → ¬ s'.forest.Uses i)
    (same : e.scripts.values.Perm scripts.values) (inTurn : InTurn e v t d)
    (inTurn' : InTurn (e.withScripts scripts) v t d) :
    Rearranged (e.triggerWith v d) ((e.withScripts scripts).triggerWith v d) := by
  obtain ⟨ways, engaged⟩ := reachable.sound.engaged
  obtain ⟨os, os', bs, bs', prompt, prompt', outcomes, ran, agree⟩ :=
    triggerEach_perm now (List.pairwise_map.mpr apart) (same.map (·.forest)) t d
  have determined {fs : List FutureId} {w : World Announcement} {os₁ os₂ : List Outcome}
      (first : fs.map w.futures.value? = os₁.map some)
      (second : fs.map w.futures.value? = os₂.map some) : os₁ = os₂ :=
    (List.map_inj_right fun _ _ => Option.some.inj).mp (first.symm.trans second)
  constructor
  · obtain ⟨own, values, is⟩ := inTurn.outcome
    obtain ⟨own', values', is'⟩ := inTurn'.outcome
    obtain rfl := determined values (prompt.values engaged.wired)
    obtain rfl := determined values' (prompt'.values engaged.wired)
    exact ⟨_, _, is, is', Outcome.status_all_perm outcomes, Outcome.messages_all_perm outcomes⟩
  · rw [inTurn.bodies, inTurn'.bodies]
    have all := ran.append_left e.world.bodies
    rw [← prompt.bodies, ← prompt'.bodies] at all
    exact all
  · exact (inTurn.store.trans agree.store).trans inTurn'.store.symm

/-- Two scripts with a node each that answers to one identifier. -/
def paired : Engine :=
  let adapters := Adapters.empty.registerLabelled .player ""
  let e := start Catalogue.registry adapters .initial (World.start ⟨0⟩ false)
  let e := (e.load (.ofLines "greeter" ["@join", "!say hello"])).2
  (e.load (.ofLines "guide" ["@join", "!say welcome", "@leave", "!say bye"])).2

/-- The order of messages is that of the scripts. -/
example :
    let turned : Table String Script := ⟨paired.scripts.entries.reverse, by decide +kernel⟩
    [paired, paired.withScripts turned].map (fun e =>
      let called := e.triggerWith (.player "steve" 20) (.ofIdentifier "join")
      (called.2.world.futures.value? called.1).map (·.messages)) =
    [some ["steve: hello", "steve: welcome"], some ["steve: welcome", "steve: hello"]] := by
  decide +kernel

end Engine

end Cuescript
