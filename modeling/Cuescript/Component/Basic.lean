import Cuescript.Context
import Cuescript.Outcome.Basic
import Cuescript.Target

/-!
Components: what a script can name. A component works on one type of target and is never given
another. It is a function of its target and the context; what it notes down on the way is part of
its result.
-/
namespace Cuescript

structure Report (α : Type) where
  notes : List String
  result : α
  deriving Inhabited

/-- How the body of an action ends. A crash may leave a text. -/
inductive Conclusion where
  | ended (outcome : Outcome)
  | crashed (message : Option String)
  deriving Inhabited

/-- A crash is a failure, for the reason it gives or an unnamed one. -/
def Conclusion.outcome : Conclusion → Outcome
  | .ended outcome => outcome
  | .crashed message => .failed (message.getD "action panicked")

structure Action where
  accepts : NativeType
  body : Native → Context → Report Conclusion
  deriving Inhabited

structure Requirement where
  accepts : NativeType
  test : Native → Context → Report Outcome
  deriving Inhabited

structure Trigger where
  accepts : NativeType
  test : Native → TriggerData → Report Outcome
  deriving Inhabited

def Report.ofOutcome (o : Outcome) : Report Outcome := ⟨[], o⟩

end Cuescript
