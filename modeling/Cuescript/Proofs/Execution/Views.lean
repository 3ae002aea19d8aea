import Cuescript.Proofs.Execution.Prospects
import Cuescript.Proofs.Execution.Regions

/-!
A world as one target sees it: the clock, whether actions are put off, and the entries of the store
under its id. Main statement: what is done for a target depends on its view and determines the next
one, and what is done for another target leaves the view alone.
-/
namespace Cuescript

def Pair.OfTarget (u : String) : Pair → Prop := fun p => p.2 = u

namespace Store

structure SameFor (u : String) (s s' : Store) : Prop where
  records : ∀ x, s'.records.get? (x, u) = s.records.get? (x, u)
  passed : ∀ x, s'.passed.get? (x, u) = s.passed.get? (x, u)

variable {u : String} {s s' : Store}

theorem sameFor_iff : SameFor u s s' ↔ SameOn (Pair.OfTarget u) s s' := by
  constructor
  · intro same
    constructor
    · rintro ⟨x, _⟩ rfl
      exact same.records x
    · rintro ⟨x, _⟩ rfl
      exact same.passed x
  · exact fun same => ⟨fun x => same.records (x, u) rfl, fun x => same.passed (x, u) rfl⟩

theorem SameFor.refl (u : String) (s : Store) : SameFor u s s := ⟨fun _ => rfl, fun _ => rfl⟩

theorem SameFor.clear (same : SameFor u s s') : SameFor u s.clear s'.clear :=
  sameFor_iff.mpr (sameFor_iff.mp same).clear

end Store

namespace World

variable {ν : Type} {u : String} {w w' w'' v v' : World ν} {t : Target} {c : Context}

structure Agree (u : String) (w w' : World ν) : Prop where
  clock : w'.clock = w.clock
  deferring : w'.deferring = w.deferring
  store : w.store.SameFor u w'.store

theorem Agree.on (agree : Agree u w v) : AgreeOn (Pair.OfTarget u) w v :=
  ⟨agree.clock, agree.deferring, Store.sameFor_iff.mp agree.store⟩

theorem AgreeOn.view (agree : AgreeOn (Pair.OfTarget u) w v) : Agree u w v :=
  ⟨agree.clock, agree.deferring, Store.sameFor_iff.mpr agree.store⟩

/-! Every gate has its pairs in the region of the target that it is passed for. -/

theorem within_ofTarget (g : Gate) (t : Target) : g.Within (Pair.OfTarget t.id) t :=
  ⟨rfl, fun _ _ => rfl⟩

theorem within_outside (other : t.id ≠ u) (g : Gate) : g.Within (Outside (Pair.OfTarget u)) t :=
  ⟨other, fun _ _ => other⟩

namespace Agree

theorem refl (u : String) (w : World ν) : Agree u w w := (AgreeOn.refl _ w).view

theorem symm (agree : Agree u w w') : Agree u w' w := agree.on.symm.view

theorem trans (agree : Agree u w w') (agree' : Agree u w' w'') : Agree u w w'' :=
  (agree.on.trans agree'.on).view

theorem futures (agree : Agree u w v) (futures futures' : Futures ν) :
    Agree u { w with futures := futures } { v with futures := futures' } :=
  (agree.on.futures futures futures').view

theorem testAll (agree : Agree t.id w v) (ns : List RequirementNode) (c : Context) :
    (v.testAll ns t c).1 = (w.testAll ns t c).1 ∧
      Agree t.id (w.testAll ns t c).2 (v.testAll ns t c).2 := by
  obtain ⟨same, agree⟩ := agree.on.testAll (fun n (_ : n ∈ ns) => rfl) c
  exact ⟨same, agree.view⟩

theorem matchData (agree : Agree u w v) (n : TriggerNode) (t : Target) (d : TriggerData) :
    Agree u (w.matchData n t d).2 (v.matchData n t d).2 := (agree.on.matchData n t d).view

theorem testTrigger (agree : Agree t.id w v) (n : TriggerNode) (d : TriggerData) :
    (v.testTrigger n t d).1 = (w.testTrigger n t d).1 ∧
      Agree t.id (w.testTrigger n t d).2 (v.testTrigger n t d).2 := by
  obtain ⟨same, agree⟩ := agree.on.testTrigger (fun g (_ : g ∈ n.guards) => rfl) d
  exact ⟨same, agree.view⟩

theorem passes (agree : Agree t.id w v) {g : Gate} (passes : Passes g t c w) : Passes g t c v :=
  agree.on.passes (within_ofTarget g t) passes

theorem quits (agree : Agree t.id w v) {e : Errand} {o : Outcome} (quits : Quits t c w e o w') :
    ∃ v', Quits t c v e o v' ∧ Agree t.id w' v' := by
  have own : e.Within (Pair.OfTarget t.id) t := by
    cases e with
    | run n claim => cases quits
    | attempt n => exact ⟨within_ofTarget .., fun _ _ => within_ofTarget ..⟩
    | fire n d => exact ⟨within_ofTarget .., fun _ _ => within_ofTarget ..⟩
  obtain ⟨v', quits, agree⟩ := agree.on.quits own quits
  exact ⟨v', quits, agree.view⟩

theorem within (agree : Agree t.id w v) (n : ActionNode) (c : Context) :
    Agree t.id (w.within n t c) (v.within n t c) :=
  (agree.on.within (within_ofTarget n.step.gate t) c).view

theorem putsOff (agree : Agree u w v) (n : ActionNode) : v.putsOff n = w.putsOff n :=
  agree.on.putsOff n

theorem afterBody (agree : Agree u w v) (n : ActionNode) (t : Target) (c : Context)
    (claim : Claim) : Agree u (w.afterBody n t c claim) (v.afterBody n t c claim) :=
  (agree.on.afterBody n t c claim).view

theorem afterFiring (agree : Agree t.id w v) (n : TriggerNode) (d : TriggerData) :
    (v.afterFiring n t d).1 = (w.afterFiring n t d).1 ∧
      Agree t.id (w.afterFiring n t d).2 (v.afterFiring n t d).2 := by
  obtain ⟨same, agree⟩ := agree.on.afterFiring (within_ofTarget n.gate t) d
  exact ⟨same, agree.view⟩

end Agree

/-! What is done for another target. -/

theorem agree_futures (u : String) (w : World ν) (futures : Futures ν) :
    Agree u w { w with futures := futures } := (agreeOn_futures _ w futures).view

theorem agree_testAll (other : t.id ≠ u) (w : World ν) (ns : List RequirementNode) (c : Context) :
    Agree u w (w.testAll ns t c).2 :=
  (agreeOn_testAll (fun n (_ : n ∈ ns) => other) w c).view

theorem agree_testTrigger (other : t.id ≠ u) (w : World ν) (n : TriggerNode) (d : TriggerData) :
    Agree u w (w.testTrigger n t d).2 :=
  (agreeOn_testTrigger (fun g (_ : g ∈ n.guards) => other) w d).view

theorem Course.agree {errands : List Errand} {fs : List FutureId} {es : List Prospect}
    (other : t.id ≠ u) (course : Course t c w errands fs es w')
    (own : ∀ n claim, .run n claim ∈ errands → claim.pair.2 = t.id) : Agree u w w' := by
  refine (course.agreeOn fun e member => ?_).view
  cases e with
  | attempt n => exact ⟨within_outside other _, fun _ _ => within_outside other _⟩
  | run n claim =>
    have pair : claim.pair.2 ≠ u := own n claim member ▸ other
    exact ⟨pair, fun _ _ => within_outside other _⟩
  | fire n d => exact ⟨within_outside other _, fun _ _ => within_outside other _⟩

end World

def Move.target? : Move → Option String
  | .test _ t _ => some t.id
  | .execute _ t _ => some t.id
  | .act _ t _ => some t.id
  | .trigger _ t _ => some t.id
  | .fire _ t _ => some t.id
  | .rehearse _ t _ => some t.id
  | .reset target => some target
  | .clock _ => none
  | .run _ => none
  | .clear => none

namespace World

variable {ν : Type} {u x : String} {w v : World ν} {m : Move}

/-! The moves that make no call and run no task. -/

theorem Agree.perform_own (agree : Agree u w v) (own : m.target? = some u) (none : m.call? = none) :
    v.answer? m = w.answer? m ∧ Agree u (w.perform m) (v.perform m) := by
  cases m with
  | test f t c =>
    cases own
    obtain ⟨same, agree⟩ := agree.testAll f.requirements c
    exact ⟨congrArg (fun c => some (Answer.combined c)) same, agree⟩
  | rehearse n t d =>
    cases own
    obtain ⟨same, agree⟩ := agree.testTrigger n d
    exact ⟨congrArg (fun o => some (Answer.outcome o)) same, agree⟩
  | reset target =>
    exact ⟨rfl, agree.clock, agree.deferring,
      Store.sameFor_iff.mpr (agree.on.store.resetTarget target)⟩
  | clock | run | clear => cases own
  | execute | act | trigger | fire => cases none

theorem agree_perform (is : m.target? = some x) (other : x ≠ u) (none : m.call? = none)
    (w : World ν) : Agree u w (w.perform m) := by
  cases m with
  | test f t c =>
    cases is
    exact agree_testAll other w f.requirements c
  | rehearse n t d =>
    cases is
    exact agree_testTrigger other w n d
  | reset target =>
    cases is
    have elsewhere : ∀ p, Pair.OfTarget u p → p.2 ≠ x := fun p own same => other (same ▸ own)
    exact ⟨rfl, rfl, Store.sameFor_iff.mpr (Store.sameOn_resetTarget elsewhere w.store)⟩
  | clock | run | clear => cases is
  | execute | act | trigger | fire => cases none

end World

end Cuescript
