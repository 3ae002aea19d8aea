import Cuescript.Proofs.Execution.Records
import Cuescript.Proofs.Time.Notation

/-!
How long a cooldown lasts yet, and what the denial says of it. Main statement: whoever waits as long
as the message says is granted the claim if a second or more was left or a whole number of
milliseconds; below one second a fraction of a millisecond is not shown, and the claim is denied
once more. A message can be read as long as it gives fewer than 213503982335 days. There is none,
and the caller crashes, where more than 2^64 - 1 seconds are left.
-/
namespace Cuescript

namespace Store

variable {s : Store} {p : Pair} {policy : Policy} {last now : Instant} {remaining : Duration}

theorem claim_cooldown_iff : (s.claim p policy now).1 = .error (.cooldown remaining) ↔
    policy.executeOnce = false ∧ (s.record p).inFlight = false ∧
      ∃ last, s.lastExecution p = some last ∧ now.since last < policy.cooldown ∧
        remaining = policy.cooldown.minus (now.since last) := by
  have active : ∀ d : Duration, d < policy.cooldown → policy.isActive = true := by
    intro d less
    rw [Duration.lt_def] at less
    have some : policy.cooldown.nanos ≠ 0 := by omega
    simp [Policy.isActive, Duration.isZero, some]
  rw [claim_error_iff, denial?, lastExecution]
  rcases s.record p with ⟨_ | last, _ | _⟩
  · simp
  · simp
  · cases policy.executeOnce with
    | true => simp
    | false =>
      by_cases early : now.since last < policy.cooldown
      · simp [early, active _ early, eq_comm]
      · simp [early]
  · simp

theorem claim_ended (cools : policy.cooldown.isZero = false) (once : policy.executeOnce = false)
    (free : (s.record p).inFlight = false) (dates : ∀ l ∈ s.lastExecution p, l = last)
    (ended : last.after policy.cooldown ≤ now) : (s.claim p policy now).1 = .ok ⟨p, true⟩ := by
  have active : policy.isActive = true := by simp [Policy.isActive, cools]
  have gone : ¬ now.since last < policy.cooldown := by simp [Instant.since_lt_iff cools, ended]
  rw [claim_ok_iff, active]
  refine ⟨rfl, fun _ => ?_⟩
  unfold lastExecution at dates
  cases is : (s.record p).last with
  | none => simp [denial?, free, is]
  | some l =>
    obtain rfl : l = last := dates l is
    simp [denial?, free, is, once, gone]

/-- What a wait is worth that was read from a denial at a time `now`. -/
structure Foretold (p : Pair) (policy : Policy) (last now : Instant) (remaining : Duration)
    (wait? : Option Duration) : Prop where
  due : now.after remaining = last.after policy.cooldown
  /-- No more days can be read than a 64-bit word holds in milliseconds. -/
  legible : wait?.isSome = true ↔ remaining ≤ .ofSeconds (213503982335 * 86400 - 1)
  near : ∀ w ∈ wait?,
    remaining.nanos < w.nanos + 1000000 ∧ w.nanos < remaining.nanos + 1000000000
  /-- The wait is enough, unless a fraction of a millisecond was left out. -/
  enough : ∀ w ∈ wait?, Duration.ofSeconds 1 ≤ remaining ∨ remaining.nanos % 1000000 = 0 →
    remaining ≤ w ∧ ∀ (s : Store) (t : Instant), (s.record p).inFlight = false →
      (∀ l ∈ s.lastExecution p, l = last) → now.after w ≤ t →
        (s.claim p policy t).1 = .ok ⟨p, true⟩
  short : ∀ w ∈ wait?, ¬ (Duration.ofSeconds 1 ≤ remaining ∨ remaining.nanos % 1000000 = 0) →
    w < remaining ∧ ∀ s : Store, (s.record p).inFlight = false →
      s.lastExecution p = some last →
        (s.claim p policy (now.after w)).1 = .error (.cooldown (remaining.minus w))

/-- A denied claim is told how long to wait, if it is told at all. -/
theorem claim_foretold (recorded : s.lastExecution p = some last) (later : last ≤ now)
    (denied : (s.claim p policy now).1 = .error (.cooldown remaining)) :
    ∃ text? : Option String, (Denial.cooldown remaining).message? =
        text?.map (fun text => "still on cooldown, " ++ text ++ " remaining") ∧
      (text?.isSome = true ↔ remaining ≤ .ofSeconds (Text.wordLimit - 1)) ∧
      Foretold p policy last now remaining
        (text?.bind fun text => Duration.read? (Duration.unspaced text)) := by
  obtain ⟨once, -, date, is, early, left⟩ := claim_cooldown_iff.mp denied
  obtain rfl : last = date := Option.some.inj (recorded.symm.trans is)
  have cools : policy.cooldown.isZero = false := by
    simp only [Duration.lt_def, Duration.isZero, beq_eq_false_iff_ne] at early ⊢
    omega
  have due : now.after remaining = last.after policy.cooldown := by
    rw [left, Instant.after_minus_since later early]
  refine ⟨remaining.text?, rfl, Duration.text?_isSome_iff, ?_⟩
  rw [Duration.read?_unspaced_text?]
  constructor
  · exact due
  · rw [← Duration.legible_iff]
    split <;> rename_i legible <;> simp [legible]
  · intro w is
    obtain ⟨-, ⟨⟩⟩ := Option.ite_none_right_eq_some.mp is
    exact Duration.rounded_near
  · intro w is whole
    obtain ⟨-, ⟨⟩⟩ := Option.ite_none_right_eq_some.mp is
    have covers := Duration.le_rounded_iff.mpr whole
    refine ⟨covers, fun s t free dates waited => claim_ended cools once free dates ?_⟩
    rw [← due]
    exact Int.le_trans (Int.add_le_add_left (Int.ofNat_le.mpr covers) _) waited
  · intro w is fraction
    obtain ⟨-, ⟨⟩⟩ := Option.ite_none_right_eq_some.mp is
    have lacks := (not_congr Duration.le_rounded_iff).mpr fraction
    refine ⟨Nat.lt_of_not_le lacks, fun s free is => ?_⟩
    rw [claim_cooldown_iff]
    refine ⟨once, free, last, is, ?_, ?_⟩
    · rw [Instant.since_lt_iff cools, ← due]
      simp only [Instant.le_def, Instant.after, Duration.le_def] at lacks ⊢
      omega
    · rw [Instant.minus_since_after later, ← left]

def executed : Store :=
  (empty.claim (⟨0⟩, "p1") ⟨.ofSeconds 1, false⟩ ⟨0⟩).2.commit ⟨(⟨0⟩, "p1"), true⟩ ⟨0⟩

/-- Three and a half seconds are left. -/
theorem claim_foretold_seconds :
    (executed.claim (⟨0⟩, "p1") ⟨.ofSeconds 5, false⟩ (.ofMillis 1500)).1 =
        .error (.cooldown (.ofMillis 3500)) ∧
      ∃ text? : Option String, (Denial.cooldown (.ofMillis 3500)).message? =
          text?.map (fun text => "still on cooldown, " ++ text ++ " remaining") ∧
        (text?.isSome = true ↔ Duration.ofMillis 3500 ≤ .ofSeconds (Text.wordLimit - 1)) ∧
        Foretold (⟨0⟩, "p1") ⟨.ofSeconds 5, false⟩ ⟨0⟩ (.ofMillis 1500) (.ofMillis 3500)
          (text?.bind fun text => Duration.read? (Duration.unspaced text)) := by
  have denied : (executed.claim (⟨0⟩, "p1") ⟨.ofSeconds 5, false⟩ (.ofMillis 1500)).1 =
      .error (.cooldown (.ofMillis 3500)) := by
    rw [claim_error_iff]
    decide +kernel
  exact ⟨denied, claim_foretold (by decide +kernel) (by decide) denied⟩

/-- Where 600.4 milliseconds are left, 600 are shown, and they are not enough. -/
theorem executed_too_soon :
    ¬ (∀ (s : Store) (p : Pair) (policy : Policy) (last now : Instant) (remaining w : Duration)
        (text : String), s.lastExecution p = some last → last ≤ now →
          policy.cooldown.seconds < Text.wordLimit →
            (s.claim p policy now).1 = .error (.cooldown remaining) →
              remaining.text? = some text → Duration.read? (Duration.unspaced text) = some w →
                ((s.claim p policy now).2.claim p policy (now.after w)).1 = .ok ⟨p, true⟩) ∧
      (executed.claim (⟨0⟩, "p1") ⟨.ofSeconds 1, false⟩ ⟨399600000⟩).1 =
        .error (.cooldown ⟨600400000⟩) ∧
      (Denial.cooldown ⟨600400000⟩).message? = some "still on cooldown, 600ms remaining" := by
  have denied : (executed.claim (⟨0⟩, "p1") ⟨.ofSeconds 1, false⟩ ⟨399600000⟩).1 =
      .error (.cooldown ⟨600400000⟩) := by
    rw [claim_error_iff]
    decide +kernel
  refine ⟨fun claim => ?_, denied, by decide +kernel⟩
  have told : Duration.text? ⟨600400000⟩ = some (Duration.text ⟨600400000⟩) := if_pos (by decide)
  have read : Duration.read? (Duration.unspaced (Duration.text ⟨600400000⟩)) =
      some (.ofMillis 600) := by
    rw [Duration.read?_unspaced_text]
    decide +kernel
  have granted := claim executed _ _ ⟨0⟩ _ _ _ _ (by decide +kernel) (by decide)
    (by decide +kernel) denied told read
  have again := (claim_ok_iff.mp granted).2 rfl
  exact absurd again (by decide +kernel)

end Store

end Cuescript
