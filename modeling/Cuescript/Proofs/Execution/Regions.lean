import Cuescript.Proofs.Execution.Courses
import Cuescript.Proofs.Execution.Immediate

/-!
Regions of the store. What is done with nodes and a target reads and writes their pairs and no
others. Main statements: what it comes to is determined by the clock and by a region that holds
these pairs, and a region that holds none of them is left alone.
-/
namespace Cuescript

namespace Store

structure SameOn (P : Pair → Prop) (s s' : Store) : Prop where
  records : ∀ p, P p → s'.records.get? p = s.records.get? p
  passed : ∀ p, P p → s'.passed.get? p = s.passed.get? p

variable {P Q : Pair → Prop} {s s' s'' : Store} {p : Pair}

namespace SameOn

theorem refl (P : Pair → Prop) (s : Store) : SameOn P s s := ⟨fun _ _ => rfl, fun _ _ => rfl⟩

theorem symm (same : SameOn P s s') : SameOn P s' s :=
  ⟨fun p own => (same.records p own).symm, fun p own => (same.passed p own).symm⟩

theorem trans (same : SameOn P s s') (same' : SameOn P s' s'') : SameOn P s s'' :=
  ⟨fun p own => (same'.records p own).trans (same.records p own),
    fun p own => (same'.passed p own).trans (same.passed p own)⟩

theorem mono (same : SameOn P s s') (less : ∀ p, Q p → P p) : SameOn Q s s' :=
  ⟨fun p own => same.records p (less p own), fun p own => same.passed p (less p own)⟩

theorem record (same : SameOn P s s') (own : P p) : s'.record p = s.record p := by
  rw [Store.record, Store.record, same.records p own]

theorem hasPassed (same : SameOn P s s') (own : P p) : s'.hasPassed p = s.hasPassed p := by
  rw [Store.hasPassed, Store.hasPassed, Table.contains, Table.contains, same.passed p own]

theorem set (same : SameOn P s s') (p : Pair) (r : ExecutionRecord) :
    SameOn P { s with records := s.records.set p r } { s' with records := s'.records.set p r } := by
  refine ⟨fun q own => ?_, same.passed⟩
  rw [Table.get?_set, Table.get?_set, same.records q own]

theorem claim (same : SameOn P s s') (own : P p) (policy : Policy) (now : Instant) :
    (s'.claim p policy now).1 = (s.claim p policy now).1 ∧
      SameOn P (s.claim p policy now).2 (s'.claim p policy now).2 := by
  rw [Store.claim, Store.claim, same.record own]
  split
  · dsimp only
    split
    · exact ⟨rfl, same.set _ _⟩
    · exact ⟨rfl, same.set _ _⟩
  · exact ⟨rfl, same⟩

theorem commit (same : SameOn P s s') (c : Claim) (now : Instant) :
    SameOn P (s.commit c now) (s'.commit c now) := by
  rw [Store.commit, Store.commit]
  split
  · exact same.set _ _
  · exact same

theorem markPassed (same : SameOn P s s') (p : Pair) (now : Instant) :
    SameOn P (s.markPassed p now) (s'.markPassed p now) := by
  refine ⟨same.records, fun q own => ?_⟩
  rw [Store.markPassed, Store.markPassed, Table.get?_set, Table.get?_set, same.passed q own]

theorem resetTarget (same : SameOn P s s') (target : String) :
    SameOn P (s.resetTarget target) (s'.resetTarget target) := by
  constructor
  · intro p own
    rw [Store.resetTarget, Store.resetTarget, Table.get?_keep, Table.get?_keep, same.records p own]
  · intro p own
    rw [Store.resetTarget, Store.resetTarget, Table.get?_keep, Table.get?_keep, same.passed p own]

theorem clear (same : SameOn P s s') : SameOn P s.clear s'.clear := by
  refine ⟨fun p own => ?_, fun _ _ => rfl⟩
  rw [Store.clear, Store.clear, Table.get?_keep, Table.get?_keep, same.records p own]

end SameOn

/-! The entries of other pairs are of no concern. -/

theorem sameOn_set (other : ¬ P p) (s : Store) (r : ExecutionRecord) :
    SameOn P s { s with records := s.records.set p r } := by
  refine ⟨fun q own => Table.get?_set_ne _ _ ?_, fun _ _ => rfl⟩
  rintro rfl
  exact other own

theorem sameOn_claim (other : ¬ P p) (s : Store) (policy : Policy) (now : Instant) :
    SameOn P s (s.claim p policy now).2 := by
  rw [claim]
  split
  · dsimp only
    split
    · exact sameOn_set other s _
    · exact sameOn_set other s _
  · exact .refl P s

theorem sameOn_commit {c : Claim} (other : ¬ P c.pair) (s : Store) (now : Instant) :
    SameOn P s (s.commit c now) := by
  rw [commit]
  split
  · exact sameOn_set other s _
  · exact .refl P s

theorem sameOn_release {c : Claim} (other : ¬ P c.pair) (s : Store) :
    SameOn P s (s.release c) := by
  rw [release]
  split
  · split
    · exact sameOn_set other s _
    · exact .refl P s
  · exact .refl P s

theorem sameOn_markPassed (other : ¬ P p) (s : Store) (now : Instant) :
    SameOn P s (s.markPassed p now) := by
  refine ⟨fun _ _ => rfl, fun q own => Table.get?_set_ne _ _ ?_⟩
  rintro rfl
  exact other own

theorem sameOn_resetTarget {target : String} (other : ∀ p, P p → p.2 ≠ target) (s : Store) :
    SameOn P s (s.resetTarget target) := by
  constructor
  · intro p own
    rw [resetTarget, Table.get?_keep]
    cases s.records.get? p <;> simp [Option.filter, other p own]
  · intro p own
    rw [resetTarget, Table.get?_keep]
    cases s.passed.get? p <;> simp [Option.filter, other p own]

theorem SameOn.release (same : SameOn P s s') (c : Claim) :
    SameOn P (s.release c) (s'.release c) := by
  by_cases own : P c.pair
  · rw [Store.release, Store.release, same.records c.pair own]
    split
    · split
      · exact same.set _ _
      · exact same
    · exact same
  · exact ((sameOn_release own s).symm.trans same).trans (sameOn_release own s')

end Store

def Gate.Within (P : Pair → Prop) (t : Target) (g : Gate) : Prop :=
  P (g.id, t.id) ∧ ∀ n ∈ g.guards, P (n.id, t.id)

def ActionNode.WithinAll (P : Pair → Prop) (t : Target) (ns : List ActionNode) : Prop :=
  ∀ m ∈ membersAll ns, m.step.gate.Within P t

def Errand.Within (P : Pair → Prop) (t : Target) : Errand → Prop
  | .attempt n => n.step.gate.Within P t ∧ ActionNode.WithinAll P t n.children
  | .run n claim => P claim.pair ∧ ActionNode.WithinAll P t n.children
  | .fire n _ => n.gate.Within P t ∧ ActionNode.WithinAll P t n.actions

theorem ActionNode.WithinAll.attempts {P : Pair → Prop} {t : Target} {ns : List ActionNode}
    (within : ActionNode.WithinAll P t ns) : ∀ e ∈ ns.map Errand.attempt, e.Within P t := by
  intro e member
  obtain ⟨n, inside, rfl⟩ := List.mem_map.mp member
  have below (m : ActionNode) (m_in : m ∈ n.members) : m.step.gate.Within P t :=
    within m (mem_membersAll.mpr ⟨n, inside, m_in⟩)
  exact ⟨below n (mem_members.mpr (.inl rfl)), fun m m_in => below m (mem_members.mpr (.inr m_in))⟩

namespace World

variable {ν : Type} {P Q : Pair → Prop} {w w' w'' v v' : World ν} {t : Target} {c : Context}

structure AgreeOn (P : Pair → Prop) (w w' : World ν) : Prop where
  clock : w'.clock = w.clock
  deferring : w'.deferring = w.deferring
  store : w.store.SameOn P w'.store

/-! What is done within a region, in two worlds that agree on it. -/

namespace AgreeOn

theorem refl (P : Pair → Prop) (w : World ν) : AgreeOn P w w := ⟨rfl, rfl, .refl P _⟩

theorem symm (agree : AgreeOn P w w') : AgreeOn P w' w :=
  ⟨agree.clock.symm, agree.deferring.symm, agree.store.symm⟩

theorem trans (agree : AgreeOn P w w') (agree' : AgreeOn P w' w'') : AgreeOn P w w'' :=
  ⟨agree'.clock.trans agree.clock, agree'.deferring.trans agree.deferring,
    agree.store.trans agree'.store⟩

theorem mono (agree : AgreeOn P w w') (less : ∀ p, Q p → P p) : AgreeOn Q w w' :=
  ⟨agree.clock, agree.deferring, agree.store.mono less⟩

theorem enter (agree : AgreeOn P w v) (i i' : NodeId) (t t' : String) (d d' : Deed)
    (notes notes' : List String) : AgreeOn P (w.enter i t d notes) (v.enter i' t' d' notes') :=
  ⟨agree.clock, agree.deferring, agree.store⟩

theorem futures (agree : AgreeOn P w v) (futures futures' : Futures ν) :
    AgreeOn P { w with futures := futures } { v with futures := futures' } :=
  ⟨agree.clock, agree.deferring, agree.store⟩

theorem commit (agree : AgreeOn P w v) (claim : Claim) :
    AgreeOn P (w.commit claim) (v.commit claim) := by
  refine ⟨agree.clock, agree.deferring, ?_⟩
  rw [World.commit, World.commit, agree.clock]
  exact agree.store.commit claim w.clock

theorem release (agree : AgreeOn P w v) (claim : Claim) :
    AgreeOn P (w.release claim) (v.release claim) :=
  ⟨agree.clock, agree.deferring, agree.store.release claim⟩

theorem claim (agree : AgreeOn P w v) {x : NodeId} {u : String} (own : P (x, u)) (q : Policy) :
    (v.claim x u q).1 = (w.claim x u q).1 ∧ AgreeOn P (w.claim x u q).2 (v.claim x u q).2 := by
  have both := agree.store.claim own q w.clock
  have result : (v.claim x u q).1 = (w.claim x u q).1 := by
    rw [claim_fst, claim_fst, agree.clock, both.1]
  have store : (w.store.claim (x, u) q w.clock).2.SameOn P (v.store.claim (x, u) q v.clock).2 := by
    rw [agree.clock]
    exact both.2
  refine ⟨result, ?_⟩
  cases is : (w.claim x u q).1 with
  | error d =>
    rw [claim_refused is, claim_refused (result.trans is)]
    exact ⟨agree.clock, agree.deferring, store⟩
  | ok c =>
    rw [claim_granted is, claim_granted (result.trans is)]
    exact ⟨agree.clock, agree.deferring, store⟩

theorem test (agree : AgreeOn P w v) {n : RequirementNode} (own : P (n.id, t.id)) (c : Context) :
    (v.test n t c).1 = (w.test n t c).1 ∧ AgreeOn P (w.test n t c).2 (v.test n t c).2 := by
  refine ⟨test_congr c (agree.store.hasPassed own), ?_⟩
  rw [World.test, World.test, agree.store.hasPassed own]
  split
  · exact agree
  · split
    · exact agree
    · dsimp only
      split
      · refine ⟨agree.clock, agree.deferring, ?_⟩
        show (w.store.markPassed _ w.clock).SameOn P (v.store.markPassed _ v.clock)
        rw [agree.clock]
        exact agree.store.markPassed _ _
      · exact agree.enter ..

theorem testAll (agree : AgreeOn P w v) {ns : List RequirementNode}
    (own : ∀ n ∈ ns, P (n.id, t.id)) (c : Context) :
    (v.testAll ns t c).1 = (w.testAll ns t c).1 ∧
      AgreeOn P (w.testAll ns t c).2 (v.testAll ns t c).2 :=
  testAll_relates (fun n member _ _ agree => agree.test (own n member) c) agree

theorem askAt (agree : AgreeOn P w v) {g : Gate} (own : g.Within P t) (c : Context) :
    (v.askAt g t c).1 = (w.askAt g t c).1 ∧ AgreeOn P (w.askAt g t c).2 (v.askAt g t c).2 :=
  (agree.claim own.1 g.policy).2.testAll own.2 c

theorem matchData (agree : AgreeOn P w v) (n : TriggerNode) (t : Target) (d : TriggerData) :
    AgreeOn P (w.matchData n t d).2 (v.matchData n t d).2 := agree.enter ..

theorem testTrigger (agree : AgreeOn P w v) {n : TriggerNode}
    (own : ∀ g ∈ n.guards, P (g.id, t.id)) (d : TriggerData) :
    (v.testTrigger n t d).1 = (w.testTrigger n t d).1 ∧
      AgreeOn P (w.testTrigger n t d).2 (v.testTrigger n t d).2 := by
  rw [World.testTrigger, World.testTrigger]
  split
  · exact ⟨rfl, agree⟩
  · have asked := agree.matchData n t d
    obtain ⟨guards, after⟩ := asked.testAll own (.ofTrigger d)
    have matched : (v.matchData n t d).1 = (w.matchData n t d).1 := rfl
    dsimp only
    rw [matched]
    split
    · exact ⟨rfl, asked⟩
    · exact ⟨congrArg Combined.outcome guards, after⟩

theorem runBody (agree : AgreeOn P w v) (s : ActionStep) (t : Target) (c : Context) :
    AgreeOn P (w.runBody s t c).2 (v.runBody s t c).2 := agree.enter ..

theorem passes (agree : AgreeOn P w v) {g : Gate} (own : g.Within P t) (passes : Passes g t c w) :
    Passes g t c v where
  granted := (agree.claim own.1 g.policy).1.trans passes.granted
  holds := by
    rw [(agree.askAt own c).1]
    exact passes.holds

theorem stops (agree : AgreeOn P w v) {g : Gate} (own : g.Within P t) {o : Outcome}
    (stops : Stops g t c w o w') : ∃ v', Stops g t c v o v' ∧ AgreeOn P w' v' := by
  cases stops with
  | denied d is =>
    obtain ⟨same, agree⟩ := agree.claim own.1 g.policy
    exact ⟨_, .denied d (same.trans is), agree⟩
  | unmet granted fails =>
    have same := (agree.claim own.1 g.policy).1
    obtain ⟨outcome, agree⟩ := agree.askAt own c
    rw [← outcome] at fails ⊢
    exact ⟨_, .unmet (same.trans granted) fails, agree.release _⟩

theorem quits (agree : AgreeOn P w v) {e : Errand} (own : e.Within P t) {o : Outcome}
    (quits : Quits t c w e o w') : ∃ v', Quits t c v e o v' ∧ AgreeOn P w' v' := by
  cases quits with
  | other n is => exact ⟨v, .other n is, agree⟩
  | stopped n accepts stops =>
    obtain ⟨v', stops, agree⟩ := agree.stops own.1 stops
    exact ⟨v', .stopped n accepts stops, agree⟩
  | foreign n d is => exact ⟨v, .foreign n d is, agree⟩
  | unmatched n d accepts fails => exact ⟨_, .unmatched n d accepts fails, agree.matchData n t d⟩
  | silent n d accepts isMatch stops =>
    obtain ⟨v', stops, agree⟩ := (agree.matchData n t d).stops own.1 stops
    exact ⟨v', .silent n d accepts isMatch stops, agree⟩

theorem within (agree : AgreeOn P w v) {n : ActionNode} (own : n.step.gate.Within P t)
    (c : Context) : AgreeOn P (w.within n t c) (v.within n t c) := (agree.askAt own c).2

theorem putsOff (agree : AgreeOn P w v) (n : ActionNode) : v.putsOff n = w.putsOff n := by
  rw [World.putsOff, World.putsOff, agree.deferring]

theorem afterBody (agree : AgreeOn P w v) (n : ActionNode) (t : Target) (c : Context)
    (claim : Claim) : AgreeOn P (w.afterBody n t c claim) (v.afterBody n t c claim) := by
  have ran := agree.runBody n.step t c
  have outcome : (v.runBody n.step t c).1 = (w.runBody n.step t c).1 := rfl
  rw [World.afterBody, World.afterBody]
  dsimp only
  rw [outcome]
  split
  · exact ran.release claim
  · exact ran.commit claim

theorem afterFiring (agree : AgreeOn P w v) {n : TriggerNode} (own : n.gate.Within P t)
    (d : TriggerData) :
    (v.afterFiring n t d).1 = (w.afterFiring n t d).1 ∧
      AgreeOn P (w.afterFiring n t d).2 (v.afterFiring n t d).2 := by
  obtain ⟨guards, agree⟩ := (agree.matchData n t d).askAt own (.ofTrigger d)
  exact ⟨congrArg Combined.outcome guards, (agree.commit _).enter ..⟩

end AgreeOn

/-! What is done outside of a region. -/

abbrev Outside (P : Pair → Prop) : Pair → Prop := fun p => ¬ P p

theorem agreeOn_enter (P : Pair → Prop) (w : World ν) (i : NodeId) (t : String) (d : Deed)
    (notes : List String) : AgreeOn P w (w.enter i t d notes) := ⟨rfl, rfl, .refl P _⟩

theorem agreeOn_futures (P : Pair → Prop) (w : World ν) (futures : Futures ν) :
    AgreeOn P w { w with futures := futures } := ⟨rfl, rfl, .refl P _⟩

theorem agreeOn_runBody (P : Pair → Prop) (w : World ν) (s : ActionStep) (t : Target)
    (c : Context) : AgreeOn P w (w.runBody s t c).2 := agreeOn_enter ..

theorem agreeOn_matchData (P : Pair → Prop) (w : World ν) (n : TriggerNode) (t : Target)
    (d : TriggerData) : AgreeOn P w (w.matchData n t d).2 := agreeOn_enter ..

theorem agreeOn_claim {x : NodeId} {u : String} (other : ¬ P (x, u)) (w : World ν) (q : Policy) :
    AgreeOn P w (w.claim x u q).2 := by
  have store := Store.sameOn_claim other w.store q w.clock
  cases is : (w.claim x u q).1 with
  | error d =>
    rw [claim_refused is]
    exact ⟨rfl, rfl, store⟩
  | ok claim =>
    rw [claim_granted is]
    exact ⟨rfl, rfl, store⟩

theorem agreeOn_test {n : RequirementNode} (other : ¬ P (n.id, t.id)) (w : World ν) (c : Context) :
    AgreeOn P w (w.test n t c).2 := by
  rw [test]
  split
  · exact .refl P w
  · split
    · exact .refl P w
    · dsimp only
      split
      · exact ⟨rfl, rfl, Store.sameOn_markPassed other _ _⟩
      · exact agreeOn_enter ..

theorem agreeOn_testAll {ns : List RequirementNode} (other : ∀ n ∈ ns, ¬ P (n.id, t.id))
    (w : World ν) (c : Context) : AgreeOn P w (w.testAll ns t c).2 :=
  testAll_leads (.refl P) .trans (fun n member w => agreeOn_test (other n member) w c) w

theorem agreeOn_testTrigger {n : TriggerNode} (other : ∀ g ∈ n.guards, ¬ P (g.id, t.id))
    (w : World ν) (d : TriggerData) : AgreeOn P w (w.testTrigger n t d).2 := by
  have matched := agreeOn_matchData P w n t d
  rw [testTrigger]
  split
  · exact .refl P w
  · dsimp only
    split
    · exact matched
    · exact matched.trans (agreeOn_testAll other _ (.ofTrigger d))

theorem agreeOn_askAt {g : Gate} (other : g.Within (Outside P) t) (w : World ν) (c : Context) :
    AgreeOn P w (w.askAt g t c).2 :=
  (agreeOn_claim other.1 w g.policy).trans (agreeOn_testAll other.2 _ c)

theorem agreeOn_release (w : World ν) {claim : Claim} (other : ¬ P claim.pair) :
    AgreeOn P w (w.release claim) := ⟨rfl, rfl, Store.sameOn_release other w.store⟩

theorem agreeOn_commit (w : World ν) {claim : Claim} (other : ¬ P claim.pair) :
    AgreeOn P w (w.commit claim) := ⟨rfl, rfl, Store.sameOn_commit other w.store w.clock⟩

theorem agreeOn_afterBody (w : World ν) (n : ActionNode) (t : Target) (c : Context) {claim : Claim}
    (other : ¬ P claim.pair) : AgreeOn P w (w.afterBody n t c claim) := by
  refine (agreeOn_runBody P w n.step t c).trans ?_
  rw [afterBody]
  dsimp only
  split
  · exact agreeOn_release _ other
  · exact agreeOn_commit _ other

theorem agreeOn_afterFiring {n : TriggerNode} (other : n.gate.Within (Outside P) t) (w : World ν)
    (d : TriggerData) : AgreeOn P w (w.afterFiring n t d).2 := by
  refine (agreeOn_matchData P w n t d).trans ((agreeOn_askAt other _ (.ofTrigger d)).trans ?_)
  exact (agreeOn_commit _ other.1).trans (agreeOn_enter ..)

theorem Stops.agreeOn {g : Gate} {o : Outcome} (stops : Stops g t c w o w')
    (other : g.Within (Outside P) t) : AgreeOn P w w' := by
  cases stops with
  | denied d is => exact agreeOn_claim other.1 w g.policy
  | unmet granted fails => exact (agreeOn_askAt other w c).trans (agreeOn_release _ other.1)

theorem Quits.agreeOn {e : Errand} {o : Outcome} (quits : Quits t c w e o w')
    (other : e.Within (Outside P) t) : AgreeOn P w w' := by
  cases quits with
  | other | foreign => exact .refl P w
  | stopped n accepts stops => exact stops.agreeOn other.1
  | unmatched n d => exact agreeOn_matchData ..
  | silent n d accepts isMatch stops =>
    exact (agreeOn_matchData P w n t d).trans (stops.agreeOn other.1)

theorem Course.agreeOn {errands : List Errand} {fs : List FutureId} {es : List Prospect}
    (course : Course t c w errands fs es w') (other : ∀ e ∈ errands, e.Within (Outside P) t) :
    AgreeOn P w w' := by
  induction course with
  | done w => exact .refl P w
  | quits quits _ behind =>
    obtain ⟨here, others⟩ := List.forall_mem_cons.mp other
    exact (quits.agreeOn here).trans ((agreeOn_futures ..).trans (behind others))
  | @deferred w _ n _ _ _ _ _ _ behind =>
    obtain ⟨here, others⟩ := List.forall_mem_cons.mp other
    have later : AgreeOn P (w.within n t c) ((w.within n t c).defer n t c (n.step.claim t)).2 :=
      ⟨rfl, rfl, .refl P _⟩
    exact (agreeOn_askAt here.1 w c).trans (later.trans (behind others))
  | @entered w _ n _ _ _ _ _ _ behind =>
    obtain ⟨here, others⟩ := List.forall_mem_cons.mp other
    have run : (Errand.run n (n.step.claim t)).Within (Outside P) t := ⟨here.1.1, here.2⟩
    exact (agreeOn_askAt here.1 w c).trans (behind (List.forall_mem_cons.mpr ⟨run, others⟩))
  | @failed w _ n claim _ _ _ _ _ behind =>
    obtain ⟨here, others⟩ := List.forall_mem_cons.mp other
    exact (agreeOn_afterBody w n t c here.1).trans ((agreeOn_futures ..).trans (behind others))
  | @ran w _ _ n claim _ _ _ _ _ _ _ _ below behind =>
    obtain ⟨here, others⟩ := List.forall_mem_cons.mp other
    have inside := (agreeOn_futures ..).trans (below here.2.attempts)
    have rest := (agreeOn_futures ..).trans (behind others)
    exact (agreeOn_afterBody w n t c here.1).trans (inside.trans rest)
  | @fired w _ _ n d _ _ _ _ _ _ _ _ _ below behind =>
    obtain ⟨here, others⟩ := List.forall_mem_cons.mp other
    have inside := (agreeOn_futures ..).trans (below here.2.attempts)
    have rest := (agreeOn_futures ..).trans (behind others)
    exact (agreeOn_afterFiring here.1 w d).trans (inside.trans rest)

end World

end Cuescript
