import Cuescript.Json.Basic
import Cuescript.Options.Schema
import Cuescript.Options.Bind

/-!
The settings of a node, as opposed to those of its component: when it may run again, whether it
waits, and how its test counts.
-/
namespace Cuescript

open Options

structure ActionConfig where
  cooldown : Duration
  delay : Duration
  executeOnce : Bool
  deriving DecidableEq, Inhabited

structure RequirementConfig where
  negated : Bool
  checkOnce : Bool
  deriving DecidableEq, Inhabited

structure TriggerConfig where
  cooldown : Duration
  executeOnce : Bool
  deriving DecidableEq, Inhabited

namespace ActionConfig

def initial : ActionConfig := ⟨.zero, .zero, false⟩

def schema : Schema ActionConfig :=
  Schema.empty
    |>.option "cooldown" (Write.of readDuration fun c d => { c with cooldown := d })
    |>.describe "minimum time between two executions for the same target"
    |>.option "delay" (Write.of readDuration fun c d => { c with delay := d })
    |>.describe "time to wait before executing"
    |>.option "execute_once" (Write.of readFlag fun c b => { c with executeOnce := b })
    |>.describe "only execute once per target"

def bind (text : String) : Except BindError ActionConfig := schema.bind initial text

end ActionConfig

namespace RequirementConfig

def initial : RequirementConfig := ⟨false, false⟩

def schema : Schema RequirementConfig :=
  Schema.empty
    |>.option "negated" (Write.of readFlag fun c b => { c with negated := b })
    |>.describe "invert the test outcome"
    |>.option "check_once" (Write.of readFlag fun c b => { c with checkOnce := b })
    |>.describe "keep passing once passed for a target"

def bind (text : String) : Except BindError RequirementConfig := schema.bind initial text

end RequirementConfig

namespace TriggerConfig

def initial : TriggerConfig := ⟨.zero, false⟩

def schema : Schema TriggerConfig :=
  Schema.empty
    |>.option "cooldown" (Write.of readDuration fun c d => { c with cooldown := d })
    |>.describe "minimum time between two firings for the same target"
    |>.option "execute_once" (Write.of readFlag fun c b => { c with executeOnce := b })
    |>.describe "only fire once per target"

def bind (text : String) : Except BindError TriggerConfig := schema.bind initial text

end TriggerConfig

end Cuescript
