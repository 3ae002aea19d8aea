import Cuescript.Proofs.Execution.Remaining
import Cuescript.Proofs.Execution.Steps

/-!
Where a run crashes: a denial is told at once, and the time that remains cannot be told if more than
2^64 - 1 seconds are left. Main statement: a run in which no cooldown is longer than that does not
crash, forgetful or not, so all of its worlds are worlds of the program.
-/
namespace Cuescript

/-- Cooldowns of which all that can be left can be told. -/
def Allowance.tellable : Allowance := fun _ p => p.cooldown ≤ .ofSeconds (Text.wordLimit - 1)

theorem Denial.message?_eq_none_iff {d : Denial} : d.message? = none ↔
    ∃ remaining, d = .cooldown remaining ∧ ¬ remaining ≤ .ofSeconds (Text.wordLimit - 1) := by
  cases d with
  | alreadyExecuted => simp [message?]
  | inFlight => simp [message?]
  | cooldown remaining => simp [message?, ← Duration.text?_isSome_iff]

/-- No more is left of a cooldown than it lasts. -/
theorem Store.message?_of_claim {s : Store} {p : Pair} {policy : Policy} {now : Instant} {d : Denial}
    (short : policy.cooldown ≤ .ofSeconds (Text.wordLimit - 1))
    (denied : (s.claim p policy now).1 = .error d) : d.message? ≠ none := by
  rw [ne_eq, Denial.message?_eq_none_iff]
  rintro ⟨remaining, rfl, long⟩
  obtain ⟨-, -, last, -, -, rfl⟩ := claim_cooldown_iff.mp denied
  exact long (Nat.le_trans (Nat.sub_le _ _) short)

namespace World

variable {ν : Type} {w : World ν}

theorem crashed_claim_iff (w : World ν) (i : NodeId) (t : String) (p : Policy) :
    (w.claim i t p).2.crashed = true ↔ w.crashed = true ∨
      ∃ remaining, (w.claim i t p).1 = .error (.cooldown remaining) ∧
        ¬ remaining ≤ .ofSeconds (Text.wordLimit - 1) := by
  cases is : (w.claim i t p).1 with
  | error d => simp [claim_refused is, Denial.message?_eq_none_iff]
  | ok c => simp [claim_granted is, enter]

theorem crashed_test (w : World ν) (n : RequirementNode) (t : Target) (c : Context) :
    (w.test n t c).2.crashed = w.crashed := by
  rw [test]
  split
  · rfl
  · split
    · rfl
    · dsimp only
      split <;> rfl

theorem Step.crashed {a b : Hold × World ν} (step : Step .tellable a b) :
    b.2.crashed = a.2.crashed := by
  cases step with
  | futures | matched | clock | released | deferred | resumed | ran | failed | fired => rfl
  | asked h w n t c => exact crashed_test w n t c
  | denied w i t p d short is =>
    rw [claim_refused is]
    rw [claim_fst] at is
    simp [Store.message?_of_claim short is]
  | admitted w i t p c _ is =>
    rw [claim_granted is]
    rfl

/-- A world that has not crashed, and whose tasks will not make it crash. -/
structure Sound (w : World ν) : Prop where
  tasks : ∀ task ∈ w.tasks, task.Obeys .tellable
  alive : w.crashed = false

theorem Sound.perform (sound : w.Sound) {m : Move} (ok : m.Obeys .tellable) :
    (w.perform m).Sound := by
  cases forgets : m.forgets with
  | false =>
    obtain ⟨alive, tasks⟩ := steps_induction (fun _ _ step => step.crashed.trans)
      (perform_steps ok forgets sound.tasks) sound.tasks sound.alive
    exact ⟨tasks, alive⟩
  | true =>
    cases m with
    | reset target => exact ⟨sound.tasks, sound.alive⟩
    | clear => exact ⟨sound.tasks, sound.alive⟩
    | test | execute | act | trigger | fire | rehearse | clock | run => cases forgets

/-- A run does not crash where all that can be left of its cooldowns can be told. -/
theorem play_sound {ms : List Move} (ok : ∀ m ∈ ms, m.Obeys .tellable) (clock : Instant)
    (deferring : Bool) : ((start clock deferring : World ν).play ms).Sound := by
  have start : (start clock deferring : World ν).Sound := ⟨List.forall_mem_nil _, rfl⟩
  generalize (World.start clock deferring : World ν) = w at start
  induction ms generalizing w with
  | nil => exact start
  | cons m rest ih =>
    have each := List.forall_mem_cons.mp ok
    exact ih each.2 _ (start.perform each.1)

end World

end Cuescript
