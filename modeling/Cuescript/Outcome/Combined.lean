import Cuescript.Outcome.Basic

/-!
A list of outcomes that is read as their conjunction and yet keeps every constituent, so that a
reader can see which check said what.
-/
namespace Cuescript

structure Combined where
  outcomes : List Outcome
  deriving DecidableEq, Inhabited

namespace Combined

def nothing : Combined := ⟨[]⟩

def ofList (os : List Outcome) : Combined := ⟨os⟩

def push (c : Combined) (o : Outcome) : Combined := ⟨c.outcomes ++ [o]⟩

def extend (c : Combined) (os : List Outcome) : Combined := ⟨c.outcomes ++ os⟩

def combine (c d : Combined) : Combined := ⟨c.outcomes ++ d.outcomes⟩

def size (c : Combined) : Nat := c.outcomes.length

def statusOf (sofar : Status) : List Outcome → Status
  | [] => sofar
  | .failure _ :: _ => .failure
  | .success _ :: rest => statusOf .success rest
  | .empty :: rest => statusOf sofar rest

def status (c : Combined) : Status := statusOf .empty c.outcomes

def isFailure (c : Combined) : Bool := c.status == .failure

def isSuccess (c : Combined) : Bool := c.status == .success

def messages (c : Combined) : List String := c.outcomes.flatMap Outcome.messages

def outcome (c : Combined) : Outcome := Outcome.all c.outcomes

theorem statusOf_failure {sofar : Status} (os : List Outcome) (none : sofar ≠ .failure) :
    (statusOf sofar os == .failure) = os.any Outcome.isFailure := by
  induction os generalizing sofar with
  | nil => simpa [statusOf] using none
  | cons o rest ih =>
    cases o with
    | success ms => simpa [statusOf, Outcome.isFailure] using @ih .success (by decide)
    | failure ms => simp [statusOf, Outcome.isFailure]
    | empty => simpa [statusOf, Outcome.isFailure] using ih none

theorem isFailure_outcome (c : Combined) : c.isFailure = c.outcome.isFailure := by
  rw [isFailure, status, statusOf_failure _ (by decide), outcome, Outcome.isFailure_all]

end Combined

end Cuescript
