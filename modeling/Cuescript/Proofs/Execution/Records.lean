import Cuescript.Execution.World

/-!
What the store remembers of a pair after each operation. Main statements: when a claim is granted,
and one equation for the record of any pair after a claim, a commit and a release.
-/
namespace Cuescript

namespace Store

theorem record_set (s : Store) (p other : Pair) (record : ExecutionRecord) :
    Store.record { s with records := s.records.set p record } other =
      if other = p then record else s.record other := by
  simp only [Store.record, Table.get?_set]
  split <;> rfl

theorem claim_ok_iff {s : Store} {p : Pair} {policy : Policy} {now : Instant} {c : Claim} :
    (s.claim p policy now).1 = .ok c ↔
      c = ⟨p, policy.isActive⟩ ∧
        (policy.isActive = true → denial? (s.record p) policy now = none) := by
  rw [claim]
  cases active : policy.isActive with
  | false => simp [eq_comm]
  | true =>
    simp only [if_true, true_implies]
    cases denial? (s.record p) policy now with
    | none => simp [eq_comm]
    | some d => simp

theorem claim_error_iff {s : Store} {p : Pair} {policy : Policy} {now : Instant} {d : Denial} :
    (s.claim p policy now).1 = .error d ↔
      policy.isActive = true ∧ denial? (s.record p) policy now = some d := by
  rw [claim]
  cases active : policy.isActive with
  | false => simp
  | true =>
    simp only [if_true, true_and]
    cases denial? (s.record p) policy now with
    | none => simp
    | some d => simp

theorem record_claim (s : Store) (p other : Pair) (policy : Policy) (now : Instant) :
    (s.claim p policy now).2.record other =
      if other = p ∧ policy.isActive = true ∧ denial? (s.record p) policy now = none then
        { s.record p with inFlight := true }
      else s.record other := by
  rw [claim]
  cases policy.isActive with
  | false => simp
  | true =>
    simp only [if_true, true_and]
    cases denial? (s.record p) policy now with
    | none => simp [record_set]
    | some d =>
      simp only [record_set, reduceCtorEq, and_false, if_false]
      split
      · rename_i same
        rw [same]
      · rfl

theorem record_commit (s : Store) (c : Claim) (now : Instant) (p : Pair) :
    (s.commit c now).record p =
      if c.tracked = true ∧ p = c.pair then ⟨some now, false⟩ else s.record p := by
  rw [commit]
  cases c.tracked with
  | false => simp
  | true => simp [record_set]

theorem record_release (s : Store) (c : Claim) (p : Pair) :
    (s.release c).record p =
      if c.tracked = true ∧ p = c.pair then { s.record p with inFlight := false }
      else s.record p := by
  rw [release]
  cases c.tracked with
  | false => simp
  | true =>
    simp only [if_true, true_and]
    cases found : s.records.get? c.pair with
    | some record =>
      simp only [record_set]
      split
      · rename_i same
        rw [same, Store.record, found, Option.getD_some]
      · rfl
    | none =>
      dsimp only
      split
      · rename_i same
        simp [same, Store.record, found]
      · rfl

theorem claim_congr {s s' : Store} {p : Pair} (same : s'.record p = s.record p) (policy : Policy)
    (now : Instant) : (s'.claim p policy now).1 = (s.claim p policy now).1 := by
  rw [claim, claim, same]
  split
  · dsimp only
    split <;> rfl
  · rfl

theorem passed_claim (s : Store) (p : Pair) (policy : Policy) (now : Instant) :
    (s.claim p policy now).2.passed = s.passed := by
  rw [claim]
  split
  · dsimp only
    split <;> rfl
  · rfl

theorem passed_commit (s : Store) (c : Claim) (now : Instant) : (s.commit c now).passed = s.passed := by
  rw [commit]
  split <;> rfl

theorem passed_release (s : Store) (c : Claim) : (s.release c).passed = s.passed := by
  rw [release]
  split
  · split <;> rfl
  · rfl

/-- A pair is recorded from the first claim under an active policy, granted or not. -/
theorem contains_claim (s : Store) (p other : Pair) (policy : Policy) (now : Instant) :
    (s.claim p policy now).2.records.contains other =
      (decide (other = p) && policy.isActive || s.records.contains other) := by
  rw [claim]
  cases policy.isActive with
  | false => simp
  | true =>
    simp only [if_true, Bool.and_true]
    cases denial? (s.record p) policy now with
    | none => exact Table.contains_set ..
    | some d => exact Table.contains_set ..

theorem contains_commit (s : Store) (c : Claim) (now : Instant) (p : Pair) :
    (s.commit c now).records.contains p =
      (c.tracked && decide (p = c.pair) || s.records.contains p) := by
  rw [commit]
  cases c.tracked with
  | false => simp
  | true => simp [Table.contains_set]

theorem contains_release (s : Store) (c : Claim) (p : Pair) :
    (s.release c).records.contains p = s.records.contains p := by
  rw [release]
  split
  · split
    · rename_i record found
      rw [Table.contains_set]
      by_cases same : p = c.pair
      · simp [same, Table.contains, found]
      · simp [same]
    · rfl
  · rfl

theorem get?_congr {s s' : Store} {p : Pair}
    (known : s'.records.contains p = s.records.contains p) (same : s'.record p = s.record p) :
    s'.records.get? p = s.records.get? p := by
  rw [Table.contains, Table.contains] at known
  rw [record, record] at same
  cases is : s.records.get? p with
  | none =>
    rw [is] at known
    exact Option.not_isSome_iff_eq_none.mp (Bool.eq_false_iff.mp known)
  | some r =>
    rw [is] at known same
    obtain ⟨r', is'⟩ := Option.isSome_iff_exists.mp known
    rw [is'] at same ⊢
    exact congrArg some same

theorem hasPassed_markPassed (s : Store) (p other : Pair) (now : Instant) (h : other ≠ p) :
    (s.markPassed p now).hasPassed other = s.hasPassed other := by
  rw [hasPassed, markPassed, Table.contains, Table.get?_set_ne _ _ h]
  rfl

theorem denial?_inFlight {record : ExecutionRecord} {policy : Policy} {now : Instant}
    (h : denial? record policy now = none) : record.inFlight = false := by
  rw [denial?] at h
  cases is : record.inFlight with
  | false => rfl
  | true => simp [is] at h

theorem denial?_executeOnce {record : ExecutionRecord} {policy : Policy} {now : Instant}
    (once : policy.executeOnce = true) (h : denial? record policy now = none) :
    record.last = none := by
  rw [denial?, if_neg (by simp [denial?_inFlight h])] at h
  cases is : record.last with
  | none => rfl
  | some last => simp [is, once] at h

theorem denial?_cooldown {record : ExecutionRecord} {policy : Policy} {now last : Instant}
    (is : record.last = some last) (h : denial? record policy now = none) :
    policy.cooldown ≤ now.since last := by
  rw [denial?, if_neg (by simp [denial?_inFlight h])] at h
  simp only [is] at h
  split at h
  · cases h
  · split at h
    · cases h
    · rename_i gone
      exact Nat.not_lt.mp gone

end Store

namespace World

variable {ν : Type}

theorem claim_fst (w : World ν) (i : NodeId) (t : String) (p : Policy) :
    (w.claim i t p).1 = (w.store.claim (i, t) p w.clock).1 := by
  rw [claim]
  split
  · rename_i is
    rw [is]
  · rename_i is
    rw [is]

theorem claim_refused {w : World ν} {i : NodeId} {t : String} {p : Policy} {d : Denial}
    (is : (w.claim i t p).1 = .error d) :
    (w.claim i t p).2 = { w with
      store := (w.store.claim (i, t) p w.clock).2
      crashed := w.crashed || d.message?.isNone } := by
  rw [claim_fst] at is
  rw [claim]
  split
  · rename_i refused
    rw [refused] at is ⊢
    cases is
    rfl
  · rename_i granted
    rw [granted] at is
    cases is

theorem claim_granted {w : World ν} {i : NodeId} {t : String} {p : Policy} {c : Claim}
    (is : (w.claim i t p).1 = .ok c) :
    (w.claim i t p).2 =
      World.enter { w with store := (w.store.claim (i, t) p w.clock).2 } i t .admitted [] := by
  rw [claim_fst] at is
  rw [claim]
  split
  · rename_i refused
    rw [refused] at is
    cases is
  · rename_i granted
    rw [granted]

@[simp] theorem store_enter (w : World ν) (i : NodeId) (t : String) (d : Deed)
    (notes : List String) : (w.enter i t d notes).store = w.store := rfl

theorem store_claim (w : World ν) (i : NodeId) (t : String) (p : Policy) :
    (w.claim i t p).2.store = (w.store.claim (i, t) p w.clock).2 := by
  cases is : (w.claim i t p).1 with
  | error d => rw [claim_refused is]
  | ok c => rw [claim_granted is, store_enter]

theorem record_claim (w : World ν) (i : NodeId) (t : String) (policy : Policy) (p : Pair) :
    (w.claim i t policy).2.store.record p =
      if p = (i, t) ∧ policy.isActive = true ∧
          Store.denial? (w.store.record (i, t)) policy w.clock = none then
        { w.store.record (i, t) with inFlight := true }
      else w.store.record p := by
  rw [store_claim, Store.record_claim]

theorem contains_claim (w : World ν) (i : NodeId) (t : String) (policy : Policy) (p : Pair) :
    (w.claim i t policy).2.store.records.contains p =
      (decide (p = (i, t)) && policy.isActive || w.store.records.contains p) := by
  rw [store_claim, Store.contains_claim]

theorem passed_claim (w : World ν) (i : NodeId) (t : String) (policy : Policy) :
    (w.claim i t policy).2.store.passed = w.store.passed := by
  rw [store_claim, Store.passed_claim]

theorem last_claim (w : World ν) (i : NodeId) (t : String) (policy : Policy) (p : Pair) :
    ((w.claim i t policy).2.store.record p).last = (w.store.record p).last := by
  rw [record_claim]
  split
  · rename_i own
    rw [own.1]
  · rfl

theorem record_commit (w : World ν) (c : Claim) (p : Pair) :
    (w.commit c).store.record p =
      if c.tracked = true ∧ p = c.pair then ⟨some w.clock, false⟩ else w.store.record p :=
  Store.record_commit ..

theorem record_release (w : World ν) (c : Claim) (p : Pair) :
    (w.release c).store.record p =
      if c.tracked = true ∧ p = c.pair then { w.store.record p with inFlight := false }
      else w.store.record p :=
  Store.record_release ..

end World

end Cuescript
