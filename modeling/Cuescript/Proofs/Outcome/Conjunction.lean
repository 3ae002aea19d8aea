import Cuescript.Outcome.Combined

/-!
Combined outcomes as conjunctions. A combined outcome can be asked for its status, which is found
without going past the first failure, and for its messages, and it can be folded into one outcome;
the three agree. Main statement: they do, adding to a combined outcome adds to the conjunction, and
neither order nor grouping of the constituents has a bearing on the status.
-/
namespace Cuescript

inductive Grouping where
  | single (o : Outcome)
  | group (parts : List Grouping)

namespace Grouping

mutual

def outcome : Grouping → Outcome
  | single o => o
  | group parts => (Combined.ofList (outcomes parts)).outcome

def outcomes : List Grouping → List Outcome
  | [] => []
  | part :: rest => part.outcome :: outcomes rest

end

mutual

def constituents : Grouping → List Outcome
  | single o => [o]
  | group parts => constituentsOf parts

def constituentsOf : List Grouping → List Outcome
  | [] => []
  | part :: rest => part.constituents ++ constituentsOf rest

end

mutual

theorem outcome_eq_all : (g : Grouping) → g.outcome = Outcome.all g.constituents
  | single o => by
    rw [outcome, constituents, Outcome.all_cons]
    exact (Outcome.both_empty o).symm
  | group parts => by
    rw [outcome, constituents]
    exact all_outcomes parts

theorem all_outcomes : (parts : List Grouping) →
    Outcome.all (outcomes parts) = Outcome.all (constituentsOf parts)
  | [] => rfl
  | part :: rest => by
    rw [outcomes, constituentsOf, Outcome.all_cons, Outcome.all_append, outcome_eq_all part,
      all_outcomes rest]

end

end Grouping

namespace Status

theorem empty_both (s : Status) : Status.empty.both s = s := by cases s <;> rfl

theorem both_failure (s : Status) : s.both .failure = .failure := by cases s <;> rfl

theorem both_assoc (a b c : Status) : (a.both b).both c = a.both (b.both c) := by
  cases a <;> cases b <;> cases c <;> rfl

theorem both_success {s : Status} (none : s ≠ .failure) : s.both .success = .success := by
  cases s with
  | failure => exact absurd rfl none
  | success | empty => rfl

theorem both_eq_failure_iff {s s' : Status} :
    s.both s' = .failure ↔ s = .failure ∨ s' = .failure := by
  cases s <;> cases s' <;> decide

theorem both_eq_empty_iff {s s' : Status} : s.both s' = .empty ↔ s = .empty ∧ s' = .empty := by
  cases s <;> cases s' <;> decide

end Status

namespace Outcome

theorem status_eq_empty_iff {o : Outcome} : o.status = .empty ↔ o = .empty := by
  cases o <;> simp [status]

theorem status_all_eq_failure_iff {os : List Outcome} :
    (all os).status = .failure ↔ ∃ o ∈ os, o.status = .failure := by
  induction os with
  | nil => simp [all, status]
  | cons o rest ih =>
    rw [all_cons, status_both, Status.both_eq_failure_iff, ih]
    simp only [List.mem_cons, exists_eq_or_imp]

theorem status_all_eq_empty_iff {os : List Outcome} :
    (all os).status = .empty ↔ ∀ o ∈ os, o = .empty := by
  induction os with
  | nil => simp [all, status]
  | cons o rest ih =>
    rw [all_cons, status_both, Status.both_eq_empty_iff, ih, status_eq_empty_iff,
      List.forall_mem_cons]

end Outcome

namespace Combined

/-- The status found so far is conjoined with that of the rest. -/
theorem statusOf_eq {sofar : Status} (os : List Outcome) (none : sofar ≠ .failure) :
    statusOf sofar os = sofar.both (Outcome.all os).status := by
  induction os generalizing sofar with
  | nil => cases sofar <;> rfl
  | cons o rest ih =>
    rw [Outcome.all_cons, Outcome.status_both]
    cases o with
    | success ms =>
      calc statusOf sofar (.success ms :: rest)
          = Status.success.both (Outcome.all rest).status := ih (by decide)
        _ = (sofar.both .success).both (Outcome.all rest).status := by
          rw [Status.both_success none]
        _ = sofar.both (Status.success.both (Outcome.all rest).status) := Status.both_assoc ..
    | failure ms => exact (Status.both_failure sofar).symm
    | empty =>
      have unit : Outcome.empty.status.both (Outcome.all rest).status = (Outcome.all rest).status :=
        Status.empty_both _
      rw [unit]
      exact ih none

theorem status_outcome (c : Combined) : c.outcome.status = c.status := by
  rw [status, statusOf_eq _ (by decide), Status.empty_both, outcome]

structure Conjoins (c : Combined) : Prop where
  status : c.outcome.status = c.status
  messages : c.outcome.messages = c.messages
  combine : ∀ d : Combined, (c.combine d).outcome = c.outcome.both d.outcome
  extend : ∀ os, (c.extend os).outcome = c.outcome.both (Outcome.all os)
  push : ∀ o, (c.push o).outcome = c.outcome.both o
  grouped : ∀ g : Grouping, g.constituents = c.outcomes → g.outcome = c.outcome
  regrouped : ∀ g : Grouping, g.constituents.Perm c.outcomes → g.outcome.status = c.status
  permuted : ∀ d : Combined, d.outcomes.Perm c.outcomes → d.status = c.status
  failure_iff : c.status = .failure ↔ ∃ o ∈ c.outcomes, o.status = .failure
  empty_iff : c.status = .empty ↔ ∀ o ∈ c.outcomes, o = .empty

theorem conjoins (c : Combined) : c.Conjoins where
  status := c.status_outcome
  messages := Outcome.messages_all c.outcomes
  combine d := Outcome.all_append c.outcomes d.outcomes
  extend os := Outcome.all_append c.outcomes os
  push o := by
    rw [outcome, push, Outcome.all_append, Outcome.all_cons]
    exact congrArg c.outcome.both (Outcome.both_empty o)
  grouped g same := by rw [g.outcome_eq_all, same, outcome]
  regrouped g same := by
    rw [g.outcome_eq_all, Outcome.status_all_perm same]
    exact c.status_outcome
  permuted d same := by
    rw [← status_outcome, ← status_outcome]
    exact Outcome.status_all_perm same
  failure_iff := by rw [← status_outcome, outcome, Outcome.status_all_eq_failure_iff]
  empty_iff := by rw [← status_outcome, outcome, Outcome.status_all_eq_empty_iff]

/-- Conjunction is associative and has a unit, messages and all, and combined outcomes conjoin. -/
theorem conjunction :
    (∀ a b c : Outcome, (a.both b).both c = a.both (b.both c)) ∧
      (∀ o : Outcome, Outcome.empty.both o = o ∧ o.both .empty = o) ∧
      (∀ a b : Outcome, (a.both b).messages = a.messages ++ b.messages) ∧
      ∀ c : Combined, c.Conjoins :=
  ⟨Outcome.both_assoc, fun o => ⟨Outcome.empty_both o, Outcome.both_empty o⟩,
    Outcome.messages_both, conjoins⟩

end Combined

end Cuescript
