import Cuescript.Json.Basic
import Cuescript.Time.Calendar

/-!
What a component can look up besides its target: the variables of the execution and the data of
the trigger that caused it.
-/
namespace Cuescript

/-- An occasion: its identifier, variables, and its time. Without a time it has just happened. -/
structure TriggerData where
  identifier : String
  vars : List (String × Json)
  triggeredAt : Option Timestamp
  deriving Inhabited

namespace TriggerData

def ofIdentifier (identifier : String) : TriggerData := ⟨identifier, [], none⟩

def lookup? (d : TriggerData) (key : String) : Option Json := d.vars.lookup key

end TriggerData

structure Context where
  vars : List (String × Json)
  trigger : Option TriggerData
  deriving Inhabited

namespace Context

def empty : Context := ⟨[], none⟩

def ofTrigger (d : TriggerData) : Context := ⟨[], some d⟩

def set (c : Context) (key : String) (value : Json) : Context :=
  { c with vars := Json.insertMember key value c.vars }

def lookup? (c : Context) (key : String) : Option Json :=
  (c.vars.lookup key).or (c.trigger.bind (·.lookup? key))

end Context

end Cuescript
