import Mathlib.Data.List.Induction
import Mathlib.Data.List.Perm.Basic
import Cuescript.Proofs.Execution.Records

/-!
Claims while they stand. A claim is granted, and later committed, released, or dropped without
either; a store may forget a target or everything in the meantime. Main statement: however a store
is used, at most one claim that restricts anything stands for a pair, and the pair is marked exactly
as long as it does.
-/
namespace Cuescript

namespace Store

/-- The marks of a store are those of the claims that stand, none of which stands twice. -/
def Marks (s : Store) (standing : List Claim) : Prop :=
  ∀ p : Pair, standing.count ⟨p, true⟩ = if (s.record p).inFlight then 1 else 0

variable {s s' : Store} {cs ds : List Claim} {c : Claim}

namespace Marks

theorem inFlight_iff (marks : s.Marks cs) (p : Pair) :
    (s.record p).inFlight = true ↔ (⟨p, true⟩ : Claim) ∈ cs := by
  have count := marks p
  rw [← List.count_pos_iff]
  cases is : (s.record p).inFlight with
  | false =>
    rw [is, if_neg Bool.false_ne_true] at count
    simp [count]
  | true =>
    rw [is, if_pos rfl] at count
    simp [count]

theorem perm (marks : s.Marks cs) (same : cs.Perm ds) : s.Marks ds := by
  intro p
  rw [← same.count_eq]
  exact marks p

theorem congr (marks : s.Marks cs)
    (same : ∀ p, (s'.record p).inFlight = (s.record p).inFlight) : s'.Marks cs := by
  intro p
  rw [same]
  exact marks p

theorem refuse {p : Pair} {policy : Policy} {now : Instant} {d : Denial} (marks : s.Marks cs)
    (is : (s.claim p policy now).1 = .error d) : (s.claim p policy now).2.Marks cs := by
  have denied := (claim_error_iff.mp is).2
  refine marks.congr fun other => ?_
  rw [record_claim, if_neg fun granted => by simp [denied] at granted]

theorem grant {p : Pair} {policy : Policy} {now : Instant} (marks : s.Marks cs)
    (is : (s.claim p policy now).1 = .ok c) : (s.claim p policy now).2.Marks (c :: cs) := by
  obtain ⟨rfl, allows⟩ := claim_ok_iff.mp is
  intro other
  rw [record_claim, List.count_cons]
  cases active : policy.isActive with
  | false =>
    have untracked : ((⟨p, false⟩ : Claim) == ⟨other, true⟩) = false := by simp
    simp [untracked, marks other]
  | true =>
    have allows := allows active
    by_cases own : other = p
    · -- The pair was free, so no other claim on it stands.
      have free : (s.record p).inFlight = false := denial?_inFlight allows
      have none := marks p
      rw [free, if_neg Bool.false_ne_true] at none
      simp [own, allows, none]
    · have apart : ((⟨p, true⟩ : Claim) == ⟨other, true⟩) = false := by simp [Ne.symm own]
      simp [own, apart, marks other]

theorem settle (marks : s.Marks (c :: cs))
    (own : c.tracked = true → (s'.record c.pair).inFlight = false)
    (other : ∀ p, ¬ (c.tracked = true ∧ p = c.pair) →
      (s'.record p).inFlight = (s.record p).inFlight) : s'.Marks cs := by
  intro p
  have count := marks p
  rw [List.count_cons] at count
  by_cases concerned : c.tracked = true ∧ p = c.pair
  · obtain ⟨tracked, rfl⟩ := concerned
    have self : (c == ⟨c.pair, true⟩) = true := by
      rw [beq_iff_eq, ← tracked]
    rw [self, if_pos rfl] at count
    rw [own tracked, if_neg Bool.false_ne_true]
    split at count <;> omega
  · have apart : (c == ⟨p, true⟩) = false := by
      rw [beq_eq_false_iff_ne]
      rintro rfl
      exact concerned ⟨rfl, rfl⟩
    rw [apart, if_neg Bool.false_ne_true] at count
    rw [other p concerned]
    exact count

theorem commit (marks : s.Marks (c :: cs)) (now : Instant) : (s.commit c now).Marks cs := by
  apply marks.settle
  · intro tracked
    rw [record_commit, if_pos ⟨tracked, rfl⟩]
  · intro p other
    rw [record_commit, if_neg other]

theorem release (marks : s.Marks (c :: cs)) : (s.release c).Marks cs := by
  apply marks.settle
  · intro tracked
    rw [record_release, if_pos ⟨tracked, rfl⟩]
  · intro p other
    rw [record_release, if_neg other]

end Marks

theorem inFlight_keep (s : Store) (passed : Table Pair Instant)
    (forgets : Pair × ExecutionRecord → Bool) (p : Pair) :
    (Store.record ⟨s.records.keep fun e => forgets e || e.2.inFlight, passed⟩ p).inFlight =
      (s.record p).inFlight := by
  rw [record, record, Table.get?_keep]
  cases s.records.get? p with
  | none => rfl
  | some record =>
    cases is : record.inFlight <;> cases kept : forgets (p, record) <;>
      simp [is, kept, Option.filter]

theorem Marks.resetTarget (marks : s.Marks cs) (target : String) :
    (s.resetTarget target).Marks cs :=
  marks.congr fun p => inFlight_keep s _ (fun e => e.1.2 ≠ target) p

theorem Marks.clear (marks : s.Marks cs) : s.clear.Marks cs :=
  marks.congr fun p => inFlight_keep s _ (fun _ => false) p

end Store

structure Grant where
  claim : Claim
  policy : Policy
  settled : Bool

structure Custody where
  store : Store
  grants : List Grant

/-- What can be done with a store and with the claims it has granted, which go by their number. -/
inductive Use where
  | claim (p : Pair) (policy : Policy) (now : Instant)
  | commit (grant : Nat) (now : Instant)
  | release (grant : Nat)
  | drop (grant : Nat)
  | reset (target : String)
  | clear

def Use.ends? : Use → Option Nat
  | .commit k _ => some k
  | .release k => some k
  | .drop k => some k
  | _ => none

namespace Custody

def empty : Custody := ⟨Store.empty, []⟩

/-- A claim that is dropped before it is settled is given back; after that nothing is left to do. -/
def drop (h : Custody) (k : Nat) : Custody :=
  match h.grants[k]? with
  | some ⟨c, policy, false⟩ => ⟨h.store.release c, h.grants.set k ⟨c, policy, true⟩⟩
  | _ => h

/-- Settling a claim uses it up: it is dropped at once. A claim cannot be settled again. -/
def settle (h : Custody) (k : Nat) (finish : Store → Claim → Store) : Custody :=
  match h.grants[k]? with
  | some ⟨c, policy, false⟩ =>
    Custody.drop ⟨finish h.store c, h.grants.set k ⟨c, policy, true⟩⟩ k
  | _ => h

def use (h : Custody) : Use → Custody
  | .claim p policy now =>
    match h.store.claim p policy now with
    | (.error _, store) => ⟨store, h.grants⟩
    | (.ok c, store) => ⟨store, h.grants ++ [⟨c, policy, false⟩]⟩
  | .commit k now => h.settle k fun store c => store.commit c now
  | .release k => h.settle k Store.release
  | .drop k => h.drop k
  | .reset target => ⟨h.store.resetTarget target, h.grants⟩
  | .clear => ⟨h.store.clear, h.grants⟩

def standing (h : Custody) : List Claim := (h.grants.filter fun g => !g.settled).map (·.claim)

def standingOn (h : Custody) (p : Pair) : List Grant :=
  h.grants.filter fun g => g.claim.pair = p && g.policy.isActive && !g.settled

/-- The store is marked as the standing claims say, and each tracks its pair as its policy says. -/
structure Tidy (h : Custody) : Prop where
  marks : h.store.Marks h.standing
  tracked : ∀ g ∈ h.grants, g.claim.tracked = g.policy.isActive

variable {h : Custody}

theorem length_standingOn (tidy : h.Tidy) (p : Pair) :
    (h.standingOn p).length = h.standing.count ⟨p, true⟩ := by
  have same : ∀ g ∈ h.grants, (g.claim.pair = p && g.policy.isActive && !g.settled) =
      (g.claim == ⟨p, true⟩ && !g.settled) := by
    intro g hg
    obtain ⟨⟨pair, tracked⟩, policy, settled⟩ := g
    obtain rfl : tracked = policy.isActive := tidy.tracked _ hg
    rw [Bool.eq_iff_iff]
    simp
  rw [standingOn, standing, List.filter_congr same, List.count, List.countP_map,
    ← List.countP_eq_length_filter, List.countP_filter]
  rfl

theorem drop_settled {k : Nat} {c : Claim} {policy : Policy}
    (is : h.grants[k]? = some ⟨c, policy, true⟩) : h.drop k = h := by
  rw [drop, is]

theorem standing_set {k : Nat} {c : Claim} {policy : Policy}
    (is : h.grants[k]? = some ⟨c, policy, false⟩) (store : Store) :
    h.standing.Perm (c :: Custody.standing ⟨store, h.grants.set k ⟨c, policy, true⟩⟩) := by
  obtain ⟨inside, here⟩ := List.getElem?_eq_some_iff.mp is
  obtain ⟨front, back, before, _, after⟩ :=
    @List.exists_of_set Grant k ⟨c, policy, true⟩ _ inside
  rw [here] at before
  rw [standing, standing, after, before]
  simp only [List.filter_append, List.filter_cons, List.map_append, Bool.not_false, Bool.not_true,
    if_true, Bool.false_eq_true, if_false, List.map_cons]
  exact List.perm_middle

theorem tracked_set (tidy : h.Tidy) {k : Nat} {c : Claim} {policy : Policy}
    (is : h.grants[k]? = some ⟨c, policy, false⟩) :
    ∀ g ∈ h.grants.set k ⟨c, policy, true⟩, g.claim.tracked = g.policy.isActive := by
  intro g member
  rcases List.mem_or_eq_of_mem_set member with member | rfl
  · exact tidy.tracked g member
  · exact tidy.tracked ⟨c, policy, false⟩ (List.mem_of_getElem? is)

theorem Tidy.drop (tidy : h.Tidy) (k : Nat) : (h.drop k).Tidy := by
  rw [Custody.drop]
  split
  · rename_i c policy is
    have marks := tidy.marks.perm (standing_set is (h.store.release c))
    exact ⟨marks.release, tracked_set tidy is⟩
  · exact tidy

/-- The drop at the end of settling has no effect, because the claim is settled by then. -/
theorem Tidy.settle (tidy : h.Tidy) (k : Nat) (finish : Store → Claim → Store)
    (finishes : ∀ {c cs}, h.store.Marks (c :: cs) → (finish h.store c).Marks cs) :
    (h.settle k finish).Tidy := by
  rw [Custody.settle]
  split
  · rename_i c policy is
    have inside := (List.getElem?_eq_some_iff.mp is).1
    rw [drop_settled (List.getElem?_set_self inside)]
    have marks := tidy.marks.perm (standing_set is (finish h.store c))
    exact ⟨finishes marks, tracked_set tidy is⟩
  · exact tidy

theorem Tidy.use (tidy : h.Tidy) (u : Use) : (h.use u).Tidy := by
  cases u with
  | claim p policy now =>
    rw [Custody.use]
    cases is : (h.store.claim p policy now).1 with
    | error d =>
      rw [show h.store.claim p policy now = (.error d, (h.store.claim p policy now).2) from
        Prod.ext is rfl]
      exact ⟨tidy.marks.refuse is, tidy.tracked⟩
    | ok c =>
      rw [show h.store.claim p policy now = (.ok c, (h.store.claim p policy now).2) from
        Prod.ext is rfl]
      refine ⟨?_, ?_⟩
      · have marks := tidy.marks.grant is
        refine marks.perm ?_
        simp only [standing, List.filter_append, List.map_append]
        exact (List.perm_append_singleton c h.standing).symm
      · intro g member
        rcases List.mem_append.mp member with member | member
        · exact tidy.tracked g member
        · obtain rfl := List.mem_singleton.mp member
          obtain ⟨rfl, _⟩ := Store.claim_ok_iff.mp is
          rfl
  | commit k now => exact tidy.settle k (fun store c => store.commit c now) (·.commit now)
  | release k => exact tidy.settle k Store.release fun marks => marks.release
  | drop k => exact tidy.drop k
  | reset target => exact ⟨tidy.marks.resetTarget target, tidy.tracked⟩
  | clear => exact ⟨tidy.marks.clear, tidy.tracked⟩

theorem tidy_uses (us : List Use) : (us.foldl use empty).Tidy := by
  have start : empty.Tidy := ⟨fun _ => rfl, nofun⟩
  induction us using List.reverseRecOn with
  | nil => exact start
  | append_singleton us u ih =>
    rw [List.foldl_append]
    exact ih.use u

theorem standing_of_use {k : Nat} {c : Claim} {policy : Policy}
    (is : h.grants[k]? = some ⟨c, policy, false⟩) {u : Use} (other : u.ends? ≠ some k) :
    (h.use u).grants[k]? = some ⟨c, policy, false⟩ := by
  have dropped : ∀ {h : Custody} {j : Nat}, h.grants[k]? = some ⟨c, policy, false⟩ → j ≠ k →
      (h.drop j).grants[k]? = some ⟨c, policy, false⟩ := by
    intro h j is apart
    rw [drop]
    split
    · rw [List.getElem?_set_ne apart]
      exact is
    · exact is
  have settled : ∀ {j : Nat} (finish : Store → Claim → Store), j ≠ k →
      (h.settle j finish).grants[k]? = some ⟨c, policy, false⟩ := by
    intro j finish apart
    rw [settle]
    split
    · apply dropped _ apart
      rw [List.getElem?_set_ne apart]
      exact is
    · exact is
  have apart : ∀ {j : Nat}, some j ≠ some k → j ≠ k := fun ne same => ne (congrArg some same)
  cases u with
  | claim p policy' now =>
    rw [use]
    split
    · exact is
    · have inside := (List.getElem?_eq_some_iff.mp is).1
      rw [List.getElem?_append_left inside]
      exact is
  | commit j now => exact settled _ (apart other)
  | release j => exact settled _ (apart other)
  | drop j => exact dropped is (apart other)
  | reset target => exact is
  | clear => exact is

structure Exclusive (h : Custody) : Prop where
  single : ∀ p, (h.standingOn p).length ≤ 1
  marked : ∀ p, (h.store.record p).inFlight = true ↔ (h.standingOn p).length = 1
  /-- While a claim stands, no other with an active policy is granted for its pair. -/
  denied : ∀ p policy now, policy.isActive = true → h.standingOn p ≠ [] →
    (h.store.claim p policy now).1 = .error .inFlight
  /-- Only what ends a claim takes its mark away: no forgetting, and no end of another claim. -/
  kept : ∀ k g u, h.grants[k]? = some g → g.settled = false → g.policy.isActive = true →
    u.ends? ≠ some k → ((h.use u).store.record g.claim.pair).inFlight = true

theorem Tidy.exclusive (tidy : h.Tidy) : Exclusive h := by
  have marked : ∀ p, (h.store.record p).inFlight = true ↔ (h.standingOn p).length = 1 := by
    intro p
    rw [length_standingOn tidy, tidy.marks p]
    cases (h.store.record p).inFlight <;> simp
  have single : ∀ p, (h.standingOn p).length ≤ 1 := by
    intro p
    rw [length_standingOn tidy, tidy.marks p]
    split <;> omega
  refine ⟨single, marked, ?_, ?_⟩
  · intro p policy now active some
    have one : (h.standingOn p).length = 1 := by
      have positive := List.length_pos_iff.mpr some
      have most := single p
      omega
    have inFlight := (marked p).mpr one
    rw [Store.claim_error_iff, Store.denial?, if_pos inFlight]
    exact ⟨active, rfl⟩
  · intro k g u is pending active other
    obtain ⟨c, policy, settled⟩ := g
    obtain rfl : settled = false := pending
    have after := tidy.use u
    have stands := List.mem_of_getElem? (standing_of_use is other)
    have tracked : c.tracked = true := (after.tracked _ stands).trans active
    rw [after.marks.inFlight_iff, ← tracked]
    exact List.mem_map.mpr ⟨_, List.mem_filter.mpr ⟨stands, rfl⟩, rfl⟩

/-- However a store is used, its claims exclude each other and its marks are those of the claims
that stand. -/
theorem uses_exclusive (us : List Use) : Exclusive (us.foldl use empty) :=
  (tidy_uses us).exclusive

end Custody

end Cuescript
