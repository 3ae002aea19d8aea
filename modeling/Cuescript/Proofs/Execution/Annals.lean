import Cuescript.Proofs.Execution.Forgetting

/-!
What a history of claims says of the next one. The annals of a store hold all claims that were ever
granted and all commits, and nothing is taken out of them; what is remembered of a pair is what they
say of it. Main statement: after any history in which nothing is forgotten, a claim is answered as
the annals say, and the answer depends only on what was done to its pair under policies that
restrict something.
-/
namespace Cuescript

structure Annals where
  grants : List Grant
  commits : List (Grant × Instant)

namespace Annals

def empty : Annals := ⟨[], []⟩

/-- A claim on the pair under a policy that restricts something is not settled yet. -/
def Stands (a : Annals) (p : Pair) : Prop :=
  ∃ g ∈ a.grants, g.claim.pair = p ∧ g.policy.isActive = true ∧ g.settled = false

instance (a : Annals) (p : Pair) : Decidable (a.Stands p) := by
  unfold Stands
  infer_instance

def latest? (a : Annals) (p : Pair) : Option Instant :=
  ((a.commits.filter fun c => c.1.claim.pair = p && c.1.policy.isActive).getLast?).map Prod.snd

def refusal? (a : Annals) (p : Pair) (policy : Policy) (now : Instant) : Option Denial :=
  if policy.isActive = false then none
  else if a.Stands p then some .inFlight
  else
    match a.latest? p with
    | none => none
    | some last =>
      if policy.executeOnce then some .alreadyExecuted
      else if last.after policy.cooldown ≤ now then none
      else some (.cooldown (policy.cooldown.minus (now.since last)))

variable {a : Annals} {p : Pair} {policy : Policy} {now : Instant}

theorem refusal?_free (active : policy.isActive = true) (free : ¬ a.Stands p) :
    a.refusal? p policy now =
      match a.latest? p with
      | none => none
      | some last =>
        if policy.executeOnce then some .alreadyExecuted
        else if last.after policy.cooldown ≤ now then none
        else some (.cooldown (policy.cooldown.minus (now.since last))) := by
  rw [refusal?, if_neg (by simp [active]), if_neg free]

theorem refusal?_inFlight_iff (active : policy.isActive = true) :
    a.refusal? p policy now = some .inFlight ↔ a.Stands p := by
  by_cases stands : a.Stands p
  · simp [refusal?, active, stands]
  · rw [refusal?_free active stands, iff_false_right stands]
    cases a.latest? p with
    | none => simp
    | some last =>
      dsimp only
      split
      · simp
      · split <;> simp

def settle (a : Annals) (k : Nat) (committed : Option Instant) : Annals :=
  match Grant.standing? a.grants k with
  | some (c, policy) =>
    ⟨a.grants.set k ⟨c, policy, true⟩,
      a.commits ++ (committed.map fun now => (⟨c, policy, true⟩, now)).toList⟩
  | none => a

def add (a : Annals) : Use → Annals
  | .claim p policy now =>
    if a.refusal? p policy now = none then
      { a with grants := a.grants ++ [⟨⟨p, policy.isActive⟩, policy, false⟩] }
    else a
  | .commit k now => a.settle k (some now)
  | .release k => a.settle k none
  | .drop k => a.settle k none
  | .reset _ => a
  | .clear => a

def ofUses (us : List Use) : Annals := us.foldl add empty

end Annals

/-- What is done to a pair under policies that restrict something. Claims need no number here, since
at most one of them stands. -/
inductive Concern where
  | claim (policy : Policy) (now : Instant)
  | commit (now : Instant)
  | giveBack

namespace Annals

/-- The claim with the number is one on the pair that restricts something and is not settled. -/
def holds (a : Annals) (k : Nat) (p : Pair) : Bool :=
  (Grant.standing? a.grants k).any fun g => g.1.pair = p && g.2.isActive

def concern? (a : Annals) (p : Pair) : Use → Option Concern
  | .claim q policy now => if q = p && policy.isActive then some (.claim policy now) else none
  | .commit k now => if a.holds k p then some (.commit now) else none
  | .release k => if a.holds k p then some .giveBack else none
  | .drop k => if a.holds k p then some .giveBack else none
  | .reset _ => none
  | .clear => none

def concerns (p : Pair) : Annals → List Use → List Concern
  | _, [] => []
  | a, u :: us => (a.concern? p u).toList ++ concerns p (a.add u) us

end Annals

def Concern.apply (record : ExecutionRecord) : Concern → ExecutionRecord
  | .claim policy now =>
    if Store.denial? record policy now = none then { record with inFlight := true } else record
  | .commit now => ⟨some now, false⟩
  | .giveBack => { record with inFlight := false }

def Use.Keeps (u : Use) : Prop := ∀ t, u.forgets t = false

namespace Custody

variable {h : Custody} {a : Annals} {p : Pair} {policy : Policy} {now : Instant}

theorem use_claim (h : Custody) (p : Pair) (policy : Policy) (now : Instant) :
    h.use (.claim p policy now) =
      ⟨(h.store.claim p policy now).2, h.grants ++
        match (h.store.claim p policy now).1 with
        | .ok c => [⟨c, policy, false⟩]
        | .error _ => []⟩ := by
  rw [use]
  rcases h.store.claim p policy now with ⟨d | c, store⟩ <;> simp

theorem concerned_iff {q r : Pair} :
    (decide (q = r) && policy.isActive) = true ↔ policy.isActive = true ∧ r = q := by
  rw [Bool.and_eq_true, decide_eq_true_eq, and_comm, @eq_comm _ q]

structure Recorded (h : Custody) (a : Annals) : Prop where
  tidy : h.Tidy
  grants : h.grants = a.grants
  dates : ∀ p, h.store.lastExecution p = a.latest? p

namespace Recorded

theorem start : Recorded empty .empty := ⟨tidy_uses [], rfl, fun _ => rfl⟩

theorem stands_iff (recorded : Recorded h a) (p : Pair) :
    a.Stands p ↔ (h.store.record p).inFlight = true := by
  rw [recorded.tidy.inFlight_eq, standingOn, recorded.grants, Bool.not_eq_true',
    List.isEmpty_eq_false_iff_exists_mem]
  simp [Annals.Stands, and_assoc]

theorem denial?_eq (recorded : Recorded h a) (p : Pair) (now : Instant)
    (active : policy.isActive = true) :
    Store.denial? (h.store.record p) policy now = a.refusal? p policy now := by
  have date := recorded.dates p
  rw [Store.lastExecution] at date
  simp only [Store.denial?, Annals.refusal?, active, recorded.stands_iff, date, reduceCtorEq,
    if_false]
  split
  · rfl
  cases a.latest? p with
  | none => rfl
  | some last =>
    dsimp only
    split
    · rfl
    rename_i repeats
    have some : policy.cooldown.isZero = false := by
      simpa [Policy.isActive, repeats] using active
    simp only [Instant.since_lt_iff some, ite_not]

theorem claim_eq (recorded : Recorded h a) (p : Pair) (policy : Policy) (now : Instant) :
    (h.store.claim p policy now).1 =
      match a.refusal? p policy now with
      | none => .ok ⟨p, policy.isActive⟩
      | some d => .error d := by
  cases active : policy.isActive with
  | false =>
    have free : a.refusal? p policy now = none := if_pos active
    rw [free, Store.claim_ok_iff, active]
    exact ⟨rfl, nofun⟩
  | true =>
    have same := recorded.denial?_eq p now active
    cases is : a.refusal? p policy now with
    | none =>
      rw [is] at same
      exact Store.claim_ok_iff.mpr ⟨by rw [active], fun _ => same⟩
    | some d =>
      rw [is] at same
      exact Store.claim_error_iff.mpr ⟨active, same⟩

theorem tracked (recorded : Recorded h a) {k : Nat} {c : Claim}
    (is : Grant.standing? a.grants k = some (c, policy)) : c.tracked = policy.isActive := by
  rw [← recorded.grants] at is
  exact recorded.tidy.tracked _ (List.mem_of_getElem? (Grant.standing?_eq_some.mp is))

theorem claim_grants (recorded : Recorded h a) :
    (h.use (.claim p policy now)).grants = (a.add (.claim p policy now)).grants := by
  have answer := recorded.claim_eq p policy now
  rw [use_claim, Annals.add]
  cases is : a.refusal? p policy now with
  | none =>
    rw [is] at answer
    simp [answer, recorded.grants]
  | some d =>
    rw [is] at answer
    simp [answer, recorded.grants]

theorem settle (recorded : Recorded h a) (k : Nat) (finish : Store → Claim → Store)
    (committed : Option Instant)
    (finishes : ∀ c q, (finish h.store c).lastExecution q =
      if c.tracked = true ∧ q = c.pair then committed.or (h.store.lastExecution q)
      else h.store.lastExecution q) :
    (h.settle k finish).grants = (a.settle k committed).grants ∧
      ∀ q, (h.settle k finish).store.lastExecution q = (a.settle k committed).latest? q := by
  rw [settle_eq, Annals.settle, recorded.grants]
  cases is : Grant.standing? a.grants k with
  | none => exact ⟨recorded.grants, recorded.dates⟩
  | some g =>
    obtain ⟨c, policy⟩ := g
    have tracked : c.tracked = policy.isActive := recorded.tracked is
    refine ⟨rfl, fun q => ?_⟩
    rw [finishes, tracked, recorded.dates]
    cases committed with
    | none => simp [Annals.latest?]
    | some now =>
      simp only [Annals.latest?, Option.map_some, Option.toList_some, List.filter_append,
        List.filter_cons, List.filter_nil, concerned_iff]
      split <;> simp

theorem use (recorded : Recorded h a) {u : Use} (keeps : u.Keeps) :
    Recorded (h.use u) (a.add u) := by
  have tidy := recorded.tidy.use u
  have released : ∀ c q, (h.store.release c).lastExecution q =
      if c.tracked = true ∧ q = c.pair then (none : Option Instant).or (h.store.lastExecution q)
      else h.store.lastExecution q := by
    intro c q
    rw [Store.lastExecution, Store.record_release]
    split <;> rfl
  cases u with
  | claim p policy now =>
    refine ⟨tidy, recorded.claim_grants, fun q => ?_⟩
    have date : (h.use (.claim p policy now)).store.lastExecution q =
        h.store.lastExecution q := by
      rw [use_claim, Store.lastExecution, Store.record_claim]
      split
      · rename_i own
        rw [own.1]
        rfl
      · rfl
    rw [date, recorded.dates, Annals.add]
    split <;> rfl
  | commit k now =>
    obtain ⟨grants, dates⟩ := recorded.settle k (fun store c => store.commit c now) (some now)
      fun c q => by
        rw [Store.lastExecution, Store.record_commit]
        split <;> rfl
    exact ⟨tidy, grants, dates⟩
  | release k =>
    obtain ⟨grants, dates⟩ := recorded.settle k Store.release none released
    exact ⟨tidy, grants, dates⟩
  | drop k =>
    obtain ⟨grants, dates⟩ := recorded.settle k Store.release none released
    rw [← drop_eq] at grants dates
    exact ⟨tidy, grants, dates⟩
  | reset target => exact absurd (keeps target) (by simp [Use.forgets])
  | clear => exact absurd (keeps "") (by simp [Use.forgets])

theorem uses (recorded : Recorded h a) {us : List Use} (kept : ∀ u ∈ us, u.Keeps) :
    Recorded (us.foldl Custody.use h) (us.foldl Annals.add a) := by
  induction us generalizing h a with
  | nil => exact recorded
  | cons u us ih =>
    obtain ⟨first, others⟩ := List.forall_mem_cons.mp kept
    exact ih (recorded.use first) others

theorem record_settle (recorded : Recorded h a) (k : Nat) (finish : Store → Claim → Store)
    (c : Concern)
    (finishes : ∀ claim, (finish h.store claim).record p =
      if claim.tracked = true ∧ p = claim.pair then c.apply (h.store.record p)
      else h.store.record p) :
    (h.settle k finish).store.record p =
      ((if a.holds k p then some c else none).toList).foldl Concern.apply (h.store.record p) := by
  rw [settle_eq, Annals.holds, recorded.grants]
  cases is : Grant.standing? a.grants k with
  | none => rfl
  | some g =>
    obtain ⟨claim, policy⟩ := g
    have tracked : claim.tracked = policy.isActive := recorded.tracked is
    dsimp only
    rw [finishes, tracked]
    simp only [Option.any_some, concerned_iff]
    split <;> rfl

/-- A use does to the record of a pair what it does to the pair, and nothing else. -/
theorem record_use (recorded : Recorded h a) {u : Use} (keeps : u.Keeps) (p : Pair) :
    (h.use u).store.record p =
      ((a.concern? p u).toList).foldl Concern.apply (h.store.record p) := by
  cases u with
  | claim q policy now =>
    rw [use_claim, Store.record_claim, Annals.concern?]
    by_cases own : q = p ∧ policy.isActive = true
    · obtain ⟨rfl, active⟩ := own
      simp [active, Concern.apply]
    · have other : (decide (q = p) && policy.isActive) = false := by
        rw [Bool.eq_false_iff]
        simpa using own
      rw [if_neg fun both => own ⟨both.1.symm, both.2.1⟩, other]
      rfl
  | commit k now => exact recorded.record_settle k _ (.commit now) fun c => Store.record_commit ..
  | release k => exact recorded.record_settle k _ .giveBack fun c => Store.record_release ..
  | drop k =>
    rw [Custody.use, drop_eq]
    exact recorded.record_settle k _ .giveBack fun c => Store.record_release ..
  | reset target => exact absurd (keeps target) (by simp [Use.forgets])
  | clear => exact absurd (keeps "") (by simp [Use.forgets])

theorem record_uses (recorded : Recorded h a) {us : List Use} (kept : ∀ u ∈ us, u.Keeps)
    (p : Pair) : (us.foldl Custody.use h).store.record p =
      (Annals.concerns p a us).foldl Concern.apply (h.store.record p) := by
  induction us generalizing h a with
  | nil => rfl
  | cons u us ih =>
    obtain ⟨first, others⟩ := List.forall_mem_cons.mp kept
    rw [List.foldl_cons, ih (recorded.use first) others, recorded.record_use first, Annals.concerns,
      List.foldl_append]

end Recorded

structure Answered (us : List Use) (p : Pair) (policy : Policy) (now : Instant)
    (answer : Except Denial Claim) : Prop where
  unrestricted : policy.isActive = false → answer = .ok ⟨p, false⟩
  occupied : policy.isActive = true →
    (answer = .error .inFlight ↔ (Annals.ofUses us).Stands p)
  first : policy.isActive = true → ¬ (Annals.ofUses us).Stands p →
    (Annals.ofUses us).latest? p = none → answer = .ok ⟨p, true⟩
  once : ¬ (Annals.ofUses us).Stands p → ∀ last, (Annals.ofUses us).latest? p = some last →
    policy.executeOnce = true → answer = .error .alreadyExecuted
  again : policy.isActive = true → ¬ (Annals.ofUses us).Stands p →
    ∀ last, (Annals.ofUses us).latest? p = some last → policy.executeOnce = false →
      (answer = .ok ⟨p, true⟩ ↔ last.after policy.cooldown ≤ now)
  early : policy.isActive = true → ¬ (Annals.ofUses us).Stands p →
    ∀ last, (Annals.ofUses us).latest? p = some last → policy.executeOnce = false →
      ¬ last.after policy.cooldown ≤ now → ∃ remaining,
        answer = .error (.cooldown remaining) ∧
        (remaining.nanos : Int) = policy.cooldown.nanos - max 0 (now.nanos - last.nanos) ∧
        0 < remaining.nanos ∧ remaining ≤ policy.cooldown
  /-- What was done to other pairs, and without restriction, is of no concern. -/
  apart : ∀ us' : List Use, (∀ u ∈ us', u.Keeps) →
    Annals.concerns p .empty us' = Annals.concerns p .empty us →
      ((us'.foldl use empty).store.claim p policy now).1 = answer

/-- After a history that forgets nothing a claim is answered by the annals. -/
theorem uses_answered (us : List Use) (kept : ∀ u ∈ us, u.Keeps) (p : Pair) (policy : Policy)
    (now : Instant) : Answered us p policy now ((us.foldl use empty).store.claim p policy now).1 := by
  have recorded : Recorded (us.foldl use empty) (Annals.ofUses us) := Recorded.start.uses kept
  have answer := recorded.claim_eq p policy now
  constructor
  · intro inactive
    rw [answer, Annals.refusal?, if_pos inactive, inactive]
  · intro active
    rw [answer, ← Annals.refusal?_inFlight_iff active]
    cases (Annals.ofUses us).refusal? p policy now <;> simp
  · intro active free none
    rw [answer, Annals.refusal?_free active free, none, active]
  · intro free last is once
    have active : policy.isActive = true := by simp [Policy.isActive, once]
    rw [answer, Annals.refusal?_free active free, is, once]
    rfl
  · intro active free last is repeats
    rw [answer, Annals.refusal?_free active free, is, repeats, active]
    by_cases gone : last.after policy.cooldown ≤ now <;> simp [gone]
  · intro active free last is repeats early
    rw [answer, Annals.refusal?_free active free, is, repeats]
    refine ⟨policy.cooldown.minus (now.since last), by simp [early], ?_⟩
    simp only [Duration.le_def, Duration.minus, Instant.le_def, Instant.since, Instant.after,
      Policy.isActive, Duration.isZero, repeats, Bool.false_or, Bool.not_eq_true',
      beq_eq_false_iff_ne] at *
    omega
  · intro us' kept' same
    have recorded' : Recorded (us'.foldl use empty) (Annals.ofUses us') := Recorded.start.uses kept'
    refine Store.claim_congr ?_ policy now
    rw [Recorded.start.record_uses kept', same, ← Recorded.start.record_uses kept]

/-- A cooldown of five seconds, beside a claim that restricts nothing and one on another pair that
is not settled. The clock goes back before the second attempt. -/
def cooling : List Use :=
  [.claim (⟨0⟩, "p1") ⟨.ofSeconds 5, false⟩ ⟨0⟩, .claim (⟨0⟩, "p1") ⟨.zero, false⟩ ⟨0⟩,
    .claim (⟨1⟩, "p1") ⟨.zero, true⟩ ⟨0⟩, .commit 0 (.ofSeconds 3),
    .claim (⟨0⟩, "p1") ⟨.ofSeconds 5, false⟩ (.ofSeconds 1), .commit 1 (.ofSeconds 9)]

theorem uses_answered_cooling :
    (∀ u ∈ cooling, u.Keeps) ∧
      Answered cooling (⟨0⟩, "p1") ⟨.ofSeconds 5, false⟩ (.ofSeconds 7)
        ((cooling.foldl use empty).store.claim (⟨0⟩, "p1") ⟨.ofSeconds 5, false⟩ (.ofSeconds 7)).1 ∧
      ((cooling.foldl use empty).store.claim (⟨0⟩, "p1") ⟨.ofSeconds 5, false⟩ (.ofSeconds 7)).1 =
        .error (.cooldown (.ofSeconds 1)) := by
  have kept : ∀ u ∈ cooling, u.Keeps := by simp [cooling, Use.Keeps, Use.forgets]
  have answered := uses_answered cooling kept (⟨0⟩, "p1") ⟨.ofSeconds 5, false⟩ (.ofSeconds 7)
  refine ⟨kept, answered, ?_⟩
  rw [Store.claim_error_iff]
  decide +kernel

end Custody

end Cuescript
