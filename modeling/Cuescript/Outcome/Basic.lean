/-!
The outcome of a test or of an action, and its conjunction. Failure wins over success, success
over nothing at all; no message is lost on the way. Main statements: `both` is associative, has
`empty` as its unit on both sides, and `all` is its iteration from the left, whose status does not
depend on the order.
-/
namespace Cuescript

inductive Status where
  | success
  | failure
  | empty
  deriving DecidableEq, Inhabited

/-- What a test or an action reports. `empty` says that it did not apply. -/
inductive Outcome where
  | success (messages : List String)
  | failure (messages : List String)
  | empty
  deriving DecidableEq, Inhabited

def Status.name : Status → String
  | .success => "success"
  | .failure => "failure"
  | .empty => "empty"

namespace Status

def both : Status → Status → Status
  | .failure, _ => .failure
  | _, .failure => .failure
  | .success, _ => .success
  | .empty, s => s

theorem both_left_comm (a b c : Status) : a.both (b.both c) = b.both (a.both c) := by
  cases a <;> cases b <;> cases c <;> rfl

end Status

namespace Outcome

def passed : Outcome := .success []

def failed (reason : String) : Outcome := .failure [reason]

def ofBool (b : Bool) : Outcome := if b then .success [] else .failure []

def status : Outcome → Status
  | .success _ => .success
  | .failure _ => .failure
  | .empty => .empty

def messages : Outcome → List String
  | .success ms => ms
  | .failure ms => ms
  | .empty => []

def isSuccess : Outcome → Bool
  | .success _ => true
  | _ => false

def isFailure : Outcome → Bool
  | .failure _ => true
  | _ => false

def isEmpty : Outcome → Bool
  | .empty => true
  | _ => false

def both : Outcome → Outcome → Outcome
  | .empty, b => b
  | a, .empty => a
  | .success a, .success b => .success (a ++ b)
  | .success a, .failure b => .failure (a ++ b)
  | .failure a, .success b => .failure (a ++ b)
  | .failure a, .failure b => .failure (a ++ b)

def negate : Outcome → Outcome
  | .success ms => .failure ms
  | .failure ms => .success ms
  | .empty => .empty

def withMessage (o : Outcome) (message : String) : Outcome :=
  match o with
  | .success ms => .success (ms ++ [message])
  | .failure ms => .failure (ms ++ [message])
  | .empty => .empty

def all (os : List Outcome) : Outcome := os.foldl both .empty

def text (o : Outcome) : String :=
  if o.messages.isEmpty then o.status.name
  else o.status.name ++ ": " ++ String.intercalate "; " o.messages

@[simp] theorem both_empty (o : Outcome) : o.both .empty = o := by cases o <;> rfl

@[simp] theorem empty_both (o : Outcome) : Outcome.empty.both o = o := by cases o <;> rfl

theorem both_assoc (a b c : Outcome) : (a.both b).both c = a.both (b.both c) := by
  cases a <;> cases b <;> cases c <;> simp [both]

@[simp] theorem messages_both (a b : Outcome) : (a.both b).messages = a.messages ++ b.messages := by
  cases a <;> cases b <;> simp [both, messages]

@[simp] theorem status_both (a b : Outcome) : (a.both b).status = a.status.both b.status := by
  cases a <;> cases b <;> rfl

theorem isFailure_both (a b : Outcome) : (a.both b).isFailure = (a.isFailure || b.isFailure) := by
  cases a <;> cases b <;> rfl

theorem foldl_both (o : Outcome) (os : List Outcome) : os.foldl both o = o.both (all os) := by
  induction os generalizing o with
  | nil => exact (both_empty o).symm
  | cons a rest ih =>
    have whole : all (a :: rest) = a.both (all rest) := by
      rw [all, List.foldl_cons, empty_both, ih a]
    rw [List.foldl_cons, ih, whole, both_assoc]

theorem all_cons (o : Outcome) (os : List Outcome) : all (o :: os) = o.both (all os) := by
  rw [all, List.foldl_cons, empty_both, foldl_both]

theorem all_append (os os' : List Outcome) : all (os ++ os') = (all os).both (all os') := by
  rw [all, List.foldl_append, foldl_both]
  rfl

theorem isFailure_all (os : List Outcome) : (all os).isFailure = os.any isFailure := by
  induction os with
  | nil => rfl
  | cons a rest ih => rw [all_cons, isFailure_both, ih, List.any_cons]

theorem messages_all (os : List Outcome) : (all os).messages = os.flatMap messages := by
  induction os with
  | nil => rfl
  | cons a rest ih => rw [all_cons, messages_both, ih, List.flatMap_cons]

/-! In another order a conjunction has the same status, and the same messages in another order. -/

theorem status_all_perm {os os' : List Outcome} (same : os.Perm os') :
    (all os).status = (all os').status := by
  induction same with
  | nil => rfl
  | cons a _ ih => rw [all_cons, all_cons, status_both, status_both, ih]
  | swap a b rest =>
    simp only [all_cons, status_both]
    exact Status.both_left_comm ..
  | trans _ _ first second => exact first.trans second

theorem messages_all_perm {os os' : List Outcome} (same : os.Perm os') :
    (all os).messages.Perm (all os').messages := by
  rw [messages_all, messages_all]
  exact same.flatMap_right messages

end Outcome

end Cuescript
