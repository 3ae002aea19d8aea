import Cuescript.Proofs.Execution.Courses
import Cuescript.Proofs.Execution.Immediate
import Cuescript.Proofs.Execution.Lifecycle

/-!
What a call will have done when it is over, told from the world as it was before the call. Each
action that is come to is turned away, fails, or succeeds, and leaves its traces in the store
accordingly; a ledger compares a world on the way with the one before the call. Main statement: as
long as the actions have entries of their own, every event of a call is what the world before the
call says, and keeps the ledger.
-/
namespace Cuescript

variable {ν : Type}

def ActionStep.Apart (s s' : ActionStep) : Prop :=
  s.id ≠ s'.id ∧ ∀ g ∈ s.guards, ∀ g' ∈ s'.guards, g.id ≠ g'.id

theorem ActionStep.Apart.symm {s s' : ActionStep} (apart : s.Apart s') : s'.Apart s :=
  ⟨apart.1.symm, fun g hg g' hg' => (apart.2 g' hg' g hg).symm⟩

namespace World

variable {w w' : World ν} {t : Target} {c : Context}

def passesOnce (w : World ν) (t : Target) (c : Context) (g : RequirementNode) : Bool :=
  g.requirement.accepts = t.type && g.config.checkOnce && !w.store.hasPassed (g.id, t.id) &&
    (w.test g t c).1.isSuccess

/-- The requirements whose pass, if they are asked now, is noted under `p`. -/
def notes (w : World ν) (t : Target) (c : Context) (p : Pair) (gs : List RequirementNode) : Bool :=
  gs.any fun g => p = (g.id, t.id) && w.passesOnce t c g

theorem clock_test (w : World ν) (g : RequirementNode) (t : Target) (c : Context) :
    (w.test g t c).2.clock = w.clock :=
  (@effect_test _ [] [g.id] w g List.mem_cons_self t c).clock

theorem passed_test (w : World ν) (g : RequirementNode) (t : Target) (c : Context) (p : Pair) :
    (w.test g t c).2.store.passed.get? p =
      if p = (g.id, t.id) ∧ w.passesOnce t c g = true then some w.clock
      else w.store.passed.get? p := by
  have value := test_fst w g t c
  by_cases other : g.requirement.accepts ≠ t.type
  · rw [if_neg (by simp [passesOnce, other]), test, if_pos other]
  · rw [if_neg other] at value
    by_cases before : (g.config.checkOnce && w.store.hasPassed (g.id, t.id)) = true
    · rw [if_neg, test, if_neg other, if_pos before]
      rw [Bool.and_eq_true] at before
      simp [passesOnce, before.2]
    · rw [if_neg before] at value
      rw [test, if_neg other, if_neg before]
      dsimp only
      split
      · rename_i first
        rw [Bool.and_eq_true] at first
        have passes : w.passesOnce t c g = true := by
          have accepts : g.requirement.accepts = t.type := not_not.mp other
          have new : w.store.hasPassed (g.id, t.id) = false := by simpa [first.1] using before
          simp [passesOnce, accepts, first.1, new, value, first.2]
        simp only [passes, and_true]
        exact Table.get?_set ..
      · rename_i not_first
        rw [if_neg]
        · rfl
        · rintro ⟨_, passes⟩
          simp only [passesOnce, value, Bool.and_eq_true] at passes
          exact not_first (by simp [passes.1.1.2, passes.2])

theorem passesOnce_congr {g : RequirementNode}
    (same : w'.store.hasPassed (g.id, t.id) = w.store.hasPassed (g.id, t.id)) :
    w'.passesOnce t c g = w.passesOnce t c g := by
  rw [passesOnce, passesOnce, same, test_congr c same]

theorem passed_testEach (w : World ν) (gs : List RequirementNode) (t : Target) (c : Context)
    (distinct : (gs.map (·.id)).Nodup) (p : Pair) :
    (w.testEach gs t c).2.store.passed.get? p =
      if w.notes t c p gs then some w.clock else w.store.passed.get? p := by
  induction gs generalizing w with
  | nil => rfl
  | cons g rest ih =>
    obtain ⟨fresh, others⟩ := List.nodup_cons.mp distinct
    -- Asking the first leaves the entries of the others alone.
    have later : (w.test g t c).2.notes t c p rest = w.notes t c p rest := by
      rw [notes, notes, Bool.eq_iff_iff, List.any_eq_true, List.any_eq_true]
      refine exists_congr fun h => and_congr_right fun hh => ?_
      have apart : (h.id, t.id) ≠ (g.id, t.id) := fun same =>
        fresh (List.mem_map.mpr ⟨h, hh, (Prod.mk.inj same).1⟩)
      rw [passesOnce_congr]
      rw [Store.hasPassed, Table.contains, passed_test, if_neg fun both => apart both.1]
      rfl
    have step := ih (w.test g t c).2 others
    rw [later, clock_test, passed_test] at step
    refine step.trans ?_
    rw [notes, notes, List.any_cons]
    by_cases own : p = (g.id, t.id) ∧ w.passesOnce t c g = true
    · simp [own.1, own.2]
    · rw [if_neg own]
      have not_own : (decide (p = (g.id, t.id)) && w.passesOnce t c g) = false := by simpa using own
      rw [not_own, Bool.false_or]

theorem record_testAll (w : World ν) (gs : List RequirementNode) (t : Target) (c : Context)
    (p : Pair) : (w.testAll gs t c).2.store.record p = w.store.record p := by
  rw [testAll]
  induction gs generalizing w with
  | nil => rfl
  | cons g rest ih =>
    refine (ih (w.test g t c).2).trans ?_
    rw [Store.record, Store.record, records_test]

theorem contains_testAll (w : World ν) (gs : List RequirementNode) (t : Target) (c : Context)
    (p : Pair) : (w.testAll gs t c).2.store.records.contains p = w.store.records.contains p := by
  rw [testAll]
  induction gs generalizing w with
  | nil => rfl
  | cons g rest ih =>
    refine (ih (w.test g t c).2).trans ?_
    rw [records_test]

def opens (w : World ν) (t : Target) (c : Context) (s : ActionStep) : Bool :=
  w.permits t s && w.holds t c s.guards

def succeeds (w : World ν) (t : Target) (c : Context) (s : ActionStep) : Bool :=
  w.opens t c s && !(w.runBody s t c).1.isFailure

def own (w : World ν) (t : Target) (c : Context) (s : ActionStep) : Outcome :=
  if s.action.accepts ≠ t.type then .empty
  else
    match (w.claim s.id t.id s.config.policy).1 with
    | .error d => .failed d.message
    | .ok _ =>
      if w.holds t c s.guards then (w.runBody s t c).1
      else Outcome.all (s.guards.map fun g => (w.test g t c).1)

/-- An action that is come to brings about a record under `p`. -/
def enrols (t : Target) (p : Pair) (s : ActionStep) : Bool :=
  p = (s.id, t.id) && s.action.accepts = t.type && s.config.policy.isActive

def commits (w : World ν) (t : Target) (c : Context) (p : Pair) (s : ActionStep) : Bool :=
  p = (s.id, t.id) && w.succeeds t c s && s.config.policy.isActive

def clears (w : World ν) (t : Target) (c : Context) (p : Pair) (s : ActionStep) : Bool :=
  w.permits t s && w.notes t c p s.guards

end World

namespace ActionNode

mutual

def visits (w : World ν) (t : Target) (c : Context) : ActionNode → List ActionStep
  | ⟨s, children⟩ => s :: if w.succeeds t c s then visitsAll w t c children else []

def visitsAll (w : World ν) (t : Target) (c : Context) : List ActionNode → List ActionStep
  | [] => []
  | n :: rest => visits w t c n ++ visitsAll w t c rest

end

mutual

def verdict (w : World ν) (t : Target) (c : Context) : ActionNode → Outcome
  | ⟨s, children⟩ =>
    if w.succeeds t c s then Outcome.all (w.own t c s :: verdicts w t c children) else w.own t c s

def verdicts (w : World ν) (t : Target) (c : Context) : List ActionNode → List Outcome
  | [] => []
  | n :: rest => verdict w t c n :: verdicts w t c rest

end

end ActionNode

namespace World

/-- A world on the way, compared with the world `b` before the call: the actions in `done` have left
their traces, and those in `asked` have been admitted and are still to run. -/
structure Ledger (b : World ν) (t : Target) (c : Context) (done asked : List ActionStep)
    (w : World ν) : Prop where
  clock : w.clock = b.clock
  known : ∀ p : Pair, w.store.records.contains p =
    ((done ++ asked).any (enrols t p) || b.store.records.contains p)
  fresh : ∀ p : Pair, (∀ s ∈ done ++ asked, p ≠ (s.id, t.id)) → w.store.record p = b.store.record p
  last : ∀ p : Pair, (w.store.record p).last =
    if done.any (b.commits t c p) then some b.clock else (b.store.record p).last
  passed : ∀ p : Pair, w.store.passed.get? p =
    if (done ++ asked).any (b.clears t c p) then some b.clock else b.store.passed.get? p
  bodies : w.bodies = b.bodies ++ (done.filter (b.opens t c)).map (b.body t c)

variable {b w w' : World ν} {t : Target} {c : Context} {done asked asked' : List ActionStep}
  {s : ActionStep} {n : ActionNode}

namespace Ledger

theorem start (clock : w.clock = b.clock) (store : w.store = b.store)
    (bodies : w.bodies = b.bodies) : Ledger b t c [] [] w :=
  ⟨clock, fun _ => by rw [store]; rfl, fun _ _ => by rw [store], fun _ => by rw [store]; rfl,
    fun _ => by rw [store]; rfl, by rw [bodies]; simp⟩

theorem perm (ledger : Ledger b t c done asked w) (same : asked.Perm asked') :
    Ledger b t c done asked' w := by
  refine { ledger with known := fun p => ?_, fresh := fun p apart => ?_, passed := fun p => ?_ }
  · rw [ledger.known, (same.append_left done).any_eq]
  · refine ledger.fresh p fun s hs => apart s ?_
    exact ((same.append_left done).mem_iff).mp hs
  · rw [ledger.passed, (same.append_left done).any_eq]

theorem congr (ledger : Ledger b t c done asked w) (clock : w'.clock = w.clock)
    (store : w'.store = w.store) (bodies : w'.bodies = w.bodies) : Ledger b t c done asked w' := by
  refine ⟨clock.trans ledger.clock, ?_, ?_, ?_, ?_, bodies.trans ledger.bodies⟩
  · rw [store]
    exact ledger.known
  · rw [store]
    exact ledger.fresh
  · rw [store]
    exact ledger.last
  · rw [store]
    exact ledger.passed

section Event

variable (ledger : Ledger b t c done asked w) (apart : ∀ s' ∈ done ++ asked, s'.Apart s)

include ledger apart

theorem record_fresh : w.store.record (s.id, t.id) = b.store.record (s.id, t.id) := by
  refine ledger.fresh _ fun s' hs' same => ?_
  exact (apart s' hs').1 (Prod.mk.inj same).1.symm

theorem claim : (w.claim s.id t.id s.config.policy).1 = (b.claim s.id t.id s.config.policy).1 := by
  rw [claim_fst, claim_fst, ledger.clock, Store.claim_congr (ledger.record_fresh apart)]

theorem hasPassed {g : RequirementNode} (guard : g ∈ s.guards) :
    w.store.hasPassed (g.id, t.id) = b.store.hasPassed (g.id, t.id) := by
  rw [Store.hasPassed, Table.contains, ledger.passed, if_neg]
  · rfl
  · rw [List.any_eq_true]
    rintro ⟨s', hs', clears⟩
    simp only [World.clears, notes, Bool.and_eq_true, List.any_eq_true, decide_eq_true_eq] at clears
    obtain ⟨_, g', guard', same, _⟩ := clears
    exact (apart s' hs').2 g' guard' g guard (Prod.mk.inj same).1.symm

theorem hasPassed_claimAt {g : RequirementNode} (guard : g ∈ s.guards) :
    (w.claimAt s.gate t).2.store.hasPassed (g.id, t.id) = b.store.hasPassed (g.id, t.id) := by
  rw [← ledger.hasPassed apart guard, Store.hasPassed, claimAt, passed_claim]
  rfl

theorem guards (distinct : (s.guards.map (·.id)).Nodup) :
    (w.askAt s.gate t c).1 = ⟨s.guards.map fun g => (b.test g t c).1⟩ := by
  rw [askAt, testAll]
  refine congrArg Combined.mk ((testEach_fst _ _ t c distinct).trans ?_)
  exact List.map_congr_left fun g guard => test_congr c (ledger.hasPassed_claimAt apart guard)

theorem holds (distinct : (s.guards.map (·.id)).Nodup) :
    (w.askAt s.gate t c).1.isFailure = !b.holds t c s.guards := by
  rw [ledger.guards apart distinct, Combined.isFailure_outcome, World.holds, Bool.not_not]
  rfl

theorem ask (distinct : (s.guards.map (·.id)).Nodup) (permits : b.permits t s = true) :
    Ledger b t c done (s :: asked) (w.askAt s.gate t c).2 := by
  have claimed : Effect [s.id] [] [] w (w.claimAt s.gate t).2 :=
    effect_claim w List.mem_cons_self t.id s.config.policy
  have tested : Effect [] (s.guards.map (·.id)) [] _ (w.askAt s.gate t c).2 :=
    effect_testAll (w.claimAt s.gate t).2 s.guards t c (List.Subset.refl _)
  have record : ∀ p, (w.askAt s.gate t c).2.store.record p =
      (w.claimAt s.gate t).2.store.record p := record_testAll _ s.guards t c
  have clock : (w.claimAt s.gate t).2.clock = b.clock := claimed.clock.trans ledger.clock
  refine ⟨tested.clock.trans clock, fun p => ?_, fun p others => ?_, fun p => ?_, fun p => ?_, ?_⟩
  · have accepts : decide (s.action.accepts = t.type) = true := (Bool.and_eq_true_iff.mp permits).1
    refine (contains_testAll _ s.guards t c p).trans ?_
    rw [claimAt, contains_claim, ledger.known, List.perm_middle.any_eq, List.any_cons, enrols,
      accepts, Bool.and_true, Bool.or_assoc]
    rfl
  · have own : p ≠ (s.id, t.id) := others s (by simp)
    rw [record, claimAt, record_claim, if_neg fun concerned => own concerned.1]
    refine ledger.fresh p fun s' hs' => others s' ?_
    exact (List.perm_middle.mem_iff).mpr (List.mem_cons_of_mem s hs')
  · rw [record, claimAt, last_claim, ledger.last]
  · have notes : (w.claimAt s.gate t).2.notes t c p s.guards = b.notes t c p s.guards := by
      rw [World.notes, World.notes, Bool.eq_iff_iff, List.any_eq_true, List.any_eq_true]
      refine exists_congr fun g => and_congr_right fun guard => ?_
      rw [passesOnce_congr (ledger.hasPassed_claimAt apart guard)]
    have own : b.clears t c p s = b.notes t c p s.guards := by rw [clears, permits, Bool.true_and]
    refine (passed_testEach _ _ t c distinct p).trans ?_
    rw [notes, clock, claimAt, passed_claim, ledger.passed,
      List.perm_middle.any_eq, List.any_cons, own]
    cases b.notes t c p s.guards <;> simp
  · rw [tested.bodies, claimed.bodies, List.append_nil, List.append_nil, ledger.bodies]

end Event

theorem finish (ledger : Ledger b t c done (s :: asked) w) (clock : w'.clock = w.clock)
    (known : ∀ p, w'.store.records.contains p = w.store.records.contains p)
    (others : ∀ p, p ≠ (s.id, t.id) → w'.store.record p = w.store.record p)
    (last : (w'.store.record (s.id, t.id)).last =
      if b.commits t c (s.id, t.id) s then some b.clock else (w.store.record (s.id, t.id)).last)
    (passed : w'.store.passed = w.store.passed)
    (bodies : w'.bodies = w.bodies ++ ([s].filter (b.opens t c)).map (b.body t c)) :
    Ledger b t c (done ++ [s]) asked w' where
  clock := clock.trans ledger.clock
  known p := by
    rw [known, ledger.known, List.append_assoc]
    rfl
  fresh p apart := by
    have own : p ≠ (s.id, t.id) := apart s (by simp)
    rw [others p own]
    refine ledger.fresh p fun s' hs' => apart s' ?_
    rw [List.append_assoc]
    exact hs'
  last p := by
    rw [List.any_append, List.any_cons, List.any_nil, Bool.or_false]
    by_cases own : p = (s.id, t.id)
    · subst own
      rw [last, ledger.last]
      cases b.commits t c (s.id, t.id) s <;> simp
    · have none : b.commits t c p s = false := by simp [commits, own]
      rw [others p own, ledger.last, none, Bool.or_false]
  passed p := by
    rw [passed, ledger.passed, List.append_assoc]
    rfl
  bodies := by
    rw [bodies, ledger.bodies, List.filter_append, List.map_append, List.append_assoc]

/-- An action that is not admitted leaves no traces, apart from an empty record. -/
theorem pass (ledger : Ledger b t c done asked w) (permits : b.permits t s = false)
    (clock : w'.clock = w.clock) (known : ∀ p, w'.store.records.contains p =
      (enrols t p s || w.store.records.contains p))
    (record : ∀ p, w'.store.record p = w.store.record p)
    (passed : w'.store.passed = w.store.passed) (bodies : w'.bodies = w.bodies) :
    Ledger b t c (done ++ [s]) asked w' where
  clock := clock.trans ledger.clock
  known p := by
    rw [known, ledger.known, List.append_assoc, List.singleton_append, List.perm_middle.any_eq,
      List.any_cons, Bool.or_assoc]
  fresh p apart := by
    rw [record]
    refine ledger.fresh p fun s' hs' => apart s' ?_
    rw [List.append_assoc]
    exact List.perm_middle.mem_iff.mpr (List.mem_cons_of_mem s hs')
  last p := by
    have none : b.commits t c p s = false := by simp [commits, succeeds, opens, permits]
    rw [record, ledger.last, List.any_append, List.any_cons, none]
    simp
  passed p := by
    have none : b.clears t c p s = false := by rw [clears, permits, Bool.false_and]
    rw [passed, ledger.passed, List.append_assoc, List.singleton_append, List.perm_middle.any_eq,
      List.any_cons, none, Bool.false_or]
  bodies := by
    have opens : b.opens t c s = false := by rw [opens, permits, Bool.false_and]
    rw [bodies, ledger.bodies, List.filter_append,
      List.filter_cons_of_neg (Bool.eq_false_iff.mp opens), List.filter_nil, List.append_nil]

theorem body (ledger : Ledger b t c done (n.step :: asked) w) (opens : b.opens t c n.step = true) :
    Ledger b t c (done ++ [n.step]) asked (w.afterBody n t c (n.step.claim t)) := by
  have entry : w.body t c n.step = b.body t c n.step := by
    rw [World.body, World.body, ledger.clock]
    rfl
  have ran : (w.runBody n.step t c).2.bodies =
      w.bodies ++ ([n.step].filter (b.opens t c)).map (b.body t c) := by
    rw [(@effect_runBody _ [] [] w n.step t c).bodies, entry, List.filter_cons_of_pos opens]
    rfl
  have not_own : ∀ p, p ≠ (n.step.id, t.id) →
      ¬ ((n.step.claim t).tracked = true ∧ p = (n.step.claim t).pair) := fun p other own =>
    other own.2
  cases fails : (w.runBody n.step t c).1.isFailure with
  | true =>
    have after : w.afterBody n t c (n.step.claim t) =
      (w.runBody n.step t c).2.release (n.step.claim t) := if_pos fails
    have none : b.succeeds t c n.step = false := by
      rw [succeeds, show (b.runBody n.step t c).1.isFailure = true from fails, Bool.not_true,
        Bool.and_false]
    rw [after]
    refine ledger.finish rfl (Store.contains_release _ _) (fun p other => ?_) ?_
      (Store.passed_release ..) ran
    · rw [record_release, if_neg (not_own p other)]
      rfl
    · rw [record_release, commits, none, Bool.and_false, Bool.false_and, if_neg Bool.false_ne_true]
      split <;> rfl
  | false =>
    have fine := Bool.eq_false_iff.mp fails
    have after : w.afterBody n t c (n.step.claim t) =
      (w.runBody n.step t c).2.commit (n.step.claim t) := if_neg fine
    have some : b.succeeds t c n.step = true := by
      rw [succeeds, opens, show (b.runBody n.step t c).1.isFailure = false from fails]
      rfl
    -- The action has been admitted, so its record is there.
    have enrolled : ∀ p, ((n.step.claim t).tracked && decide (p = (n.step.claim t).pair)) = true →
        w.store.records.contains p = true := by
      intro p own
      obtain ⟨active, is⟩ := Bool.and_eq_true_iff.mp own
      obtain ⟨permits, _⟩ := Bool.and_eq_true_iff.mp opens
      obtain ⟨accepts, _⟩ := Bool.and_eq_true_iff.mp permits
      have enrols : enrols t p n.step = true :=
        Bool.and_eq_true_iff.mpr ⟨Bool.and_eq_true_iff.mpr ⟨is, accepts⟩, active⟩
      rw [ledger.known, List.any_append, List.any_cons, enrols]
      simp
    rw [after]
    refine ledger.finish rfl (fun p => ?_) (fun p other => ?_) ?_ (Store.passed_commit ..) ran
    · exact (Store.contains_commit ..).trans (Bool.or_eq_right_iff_imp.mpr (enrolled p))
    · rw [record_commit, if_neg (not_own p other)]
      rfl
    · rw [record_commit, commits, some]
      cases active : n.step.config.policy.isActive with
      | false => simp [ActionStep.claim, Claim.of, active, runBody]
      | true => simp [ActionStep.claim, Claim.of, active, runBody, enter, ledger.clock]

theorem quit (ledger : Ledger b t c done asked w) (apart : ∀ s' ∈ done ++ asked, s'.Apart n.step)
    (distinct : (n.step.guards.map (·.id)).Nodup) {o : Outcome}
    (quits : Quits t c w (.attempt n) o w') :
    b.opens t c n.step = false ∧ o = b.own t c n.step ∧
      Ledger b t c (done ++ [n.step]) asked w' := by
  cases quits with
  | other _ is =>
    have permits : b.permits t n.step = false := by simp [World.permits, is]
    have opens : b.opens t c n.step = false := by rw [World.opens, permits, Bool.false_and]
    refine ⟨opens, by rw [own, if_pos is], ?_⟩
    refine ledger.pass permits rfl (fun p => ?_) (fun _ => rfl) rfl rfl
    simp [enrols, is]
  | stopped _ accepts stops =>
    cases stops with
    | denied d is =>
      have denied : (b.claim n.step.id t.id n.step.config.policy).1 = .error d := by
        rw [← ledger.claim apart]
        exact is
      have permits : b.permits t n.step = false := by simp [World.permits, denied, Except.toBool]
      have opens : b.opens t c n.step = false := by rw [World.opens, permits, Bool.false_and]
      have claimed : Effect [n.step.id] [] [] w (w.claimAt n.step.gate t).2 :=
        effect_claim w List.mem_cons_self t.id n.step.config.policy
      refine ⟨opens, by rw [own, if_neg (not_not_intro accepts), denied], ?_⟩
      refine ledger.pass permits claimed.clock (fun p => ?_) (fun p => ?_) (passed_claim ..) ?_
      · rw [claimAt, contains_claim, enrols, accepts, decide_eq_true rfl, Bool.and_true]
        rfl
      · rw [claimAt, claim_fst, Store.claim_error_iff] at is
        rw [claimAt, record_claim, if_neg]
        rintro ⟨_, _, free⟩
        cases free.symm.trans is.2
      · rw [claimed.bodies, List.append_nil]
    | unmet granted fails =>
      have admitted : (b.claim n.step.id t.id n.step.config.policy).1 = .ok (n.step.claim t) := by
        rw [← ledger.claim apart]
        exact granted
      have permits : b.permits t n.step = true := by
        simp [World.permits, admitted, accepts, Except.toBool]
      have holds : b.holds t c n.step.guards = false := by
        have asked := ledger.holds (c := c) apart distinct
        rw [fails] at asked
        simpa using asked.symm
      have opens : b.opens t c n.step = false := by rw [World.opens, holds, Bool.and_false]
      refine ⟨opens, ?_, ?_⟩
      · rw [own, if_neg (not_not_intro accepts), admitted, ledger.guards apart distinct, holds]
        rfl
      · refine (ledger.ask apart distinct permits).finish rfl (Store.contains_release _ _)
          (fun p other => ?_) ?_ (Store.passed_release ..) ?_
        · rw [record_release, if_neg fun own => other own.2]
        · have none : b.commits t c (n.step.id, t.id) n.step = false := by
            simp [commits, succeeds, opens]
          rw [none, record_release, if_neg Bool.false_ne_true]
          split <;> rfl
        · rw [List.filter_cons_of_neg (Bool.eq_false_iff.mp opens), List.filter_nil, List.map_nil,
            List.append_nil]
          rfl

theorem enter (ledger : Ledger b t c done asked w) (apart : ∀ s' ∈ done ++ asked, s'.Apart n.step)
    (distinct : (n.step.guards.map (·.id)).Nodup) (enters : Enters n t c w) :
    b.opens t c n.step = true ∧ Ledger b t c done (n.step :: asked) (w.within n t c) := by
  obtain ⟨accepts, granted, fine⟩ := enters
  have admitted : (b.claim n.step.id t.id n.step.config.policy).1 = .ok (n.step.claim t) := by
    rw [← ledger.claim apart]
    exact granted
  have permits : b.permits t n.step = true := by
    simp [World.permits, admitted, accepts, Except.toBool]
  have holds : b.holds t c n.step.guards = true := by
    have asked := ledger.holds (c := c) apart distinct
    rw [fine] at asked
    simpa using asked.symm
  exact ⟨by rw [World.opens, permits, holds]; rfl, ledger.ask apart distinct permits⟩

end Ledger

end World

end Cuescript
