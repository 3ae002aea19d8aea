import Cuescript.Context
import Cuescript.Directive.Basic
import Cuescript.Node.Config
import Cuescript.Outcome.Combined
import Cuescript.Script.Config

/-!
The JSON forms of outcomes, directives, configs, trigger data and documents: how each is written,
and how it is read back. A name alone stands for an enumerated value, or an object with that name
for its only member and nothing in it.
-/
namespace Cuescript

open Document

def Json.name? : Json → Option String
  | .string s => some s
  | .object [(s, .null)] => some s
  | _ => none

def Json.object? : Json → Option (List (String × Json))
  | .object ms => some ms
  | _ => none

namespace Kind

def toJson (k : Kind) : Json := .string k.name

def ofJson? (j : Json) : Option Kind := j.name?.bind ofName?

end Kind

namespace Status

def toJson (s : Status) : Json := .string s.name

def ofName? (s : String) : Option Status :=
  [Status.success, .failure, .empty].find? fun t => t.name == s

def ofJson? (j : Json) : Option Status := j.name?.bind ofName?

end Status

namespace Outcome

def toJson : Outcome → Json
  | .empty => .ofMembers [("status", .string "empty")]
  | o => .ofMembers [("status", o.status.toJson), ("messages", .ofStrings o.messages)]

def ofParts? (status : Status) (messages : Option Json) : Option Outcome := do
  match status with
  | .success => (required (listOf text?) messages).map .success
  | .failure => (required (listOf text?) messages).map .failure
  | .empty => if messages.all Json.isNull then some .empty else none

/-- Reads an object, or an array of status and messages, where the status is a name alone. -/
def ofJson? : Json → Option Outcome
  | .object ms => do ofParts? (← Status.ofJson? (← ms.lookup "status")) (ms.lookup "messages")
  | .array [status, messages] => do ofParts? (← Status.ofName? (← status.string?)) (some messages)
  | _ => none

end Outcome

namespace Combined

def toJson (c : Combined) : Json :=
  .ofMembers [("outcomes", .array (c.outcomes.map Outcome.toJson))]

def ofJson? (j : Json) : Option Combined := do
  let fs ← fields? [["outcomes"]] j
  (required (listOf Outcome.ofJson?) (field fs 0)).map .mk

end Combined

namespace Directive

def toJson (d : Directive) : Json :=
  .ofMembers [("kind", d.kind.toJson), ("identifier", .string d.identifier),
    ("node_options", .string d.nodeOptions), ("options", .string d.options),
    ("source_index", .int d.line)]

def ofJson? (j : Json) : Option Directive := do
  let fs ← fields? [["kind"], ["identifier"], ["node_options"], ["options"], ["source_index"]] j
  let kind ← required Kind.ofJson? (field fs 0)
  let identifier ← required text? (field fs 1)
  let nodeOptions ← withDefault "" text? (field fs 2)
  let options ← withDefault "" text? (field fs 3)
  let line ← required word? (field fs 4)
  some ⟨kind, identifier, nodeOptions, options, line⟩

end Directive

namespace Duration

def toJson (d : Duration) : Json := .int (d.millis % Text.wordLimit : Nat)

def ofJson? (j : Json) : Option Duration := (word? j).map ofMillis

end Duration

namespace ActionConfig

def toJson (c : ActionConfig) : Json :=
  .ofMembers [("cooldown", c.cooldown.toJson), ("delay", c.delay.toJson),
    ("execute_once", .bool c.executeOnce)]

def ofJson? (j : Json) : Option ActionConfig := do
  let fs ← fields? [["cooldown"], ["delay"], ["execute_once"]] j
  let cooldown ← withDefault .zero Duration.ofJson? (field fs 0)
  let delay ← withDefault .zero Duration.ofJson? (field fs 1)
  let once ← withDefault false bool? (field fs 2)
  some ⟨cooldown, delay, once⟩

end ActionConfig

namespace RequirementConfig

def toJson (c : RequirementConfig) : Json :=
  .ofMembers [("negated", .bool c.negated), ("check_once", .bool c.checkOnce)]

def ofJson? (j : Json) : Option RequirementConfig := do
  let fs ← fields? [["negated"], ["check_once"]] j
  let negated ← withDefault false bool? (field fs 0)
  let checkOnce ← withDefault false bool? (field fs 1)
  some ⟨negated, checkOnce⟩

end RequirementConfig

namespace TriggerConfig

def toJson (c : TriggerConfig) : Json :=
  .ofMembers [("cooldown", c.cooldown.toJson), ("execute_once", .bool c.executeOnce)]

def ofJson? (j : Json) : Option TriggerConfig := do
  let fs ← fields? [["cooldown"], ["execute_once"]] j
  let cooldown ← withDefault .zero Duration.ofJson? (field fs 0)
  let once ← withDefault false bool? (field fs 1)
  some ⟨cooldown, once⟩

end TriggerConfig

namespace TriggerData

def toJson (d : TriggerData) : Json :=
  .ofMembers [("identifier", .string d.identifier), ("variables", .ofMembers d.vars),
    ("triggered_at", .ofOption (fun t => .string t.text) d.triggeredAt)]

def ofJson? (j : Json) : Option TriggerData := do
  let fs ← fields? [["identifier"], ["variables"], ["triggered_at"]] j
  let identifier ← required text? (field fs 0)
  let vars ← withDefault [] Json.object? (field fs 1)
  let time ← required (fun j => (text? j).bind Timestamp.read?) (field fs 2)
  some ⟨identifier, vars, some time⟩

end TriggerData

namespace ScriptSettings

def toJson (s : ScriptSettings) : Json :=
  .ofMembers [("auto_trigger", .bool s.autoTrigger), ("execute_actions", .bool s.executeActions)]

end ScriptSettings

namespace ScriptConfig

def toJson (c : ScriptConfig) : Json :=
  .ofMembers <|
    [("id", .string c.id), ("parser", .string c.parser),
      ("lines", .ofStrings c.lines)]
    ++ c.title.toList.map (fun a => ("alias", .string a))
    ++ c.settings.toList.map (fun s => ("settings", s.toJson))

end ScriptConfig

namespace EngineSettings

def toJson (s : EngineSettings) : Json :=
  .ofMembers <|
    [("default_settings", s.defaults.toJson), ("event_capacity", .int s.eventCapacity)]
    ++ s.scriptDir.toList.map fun d => ("script_dir", .string d)

end EngineSettings

/-- Reads a value of a type and writes it back. `made` is the id made up for a script without one. -/
def Json.canonical? (made type : String) (j : Json) : Option Json :=
  match type with
  | "kind" => (Kind.ofJson? j).map Kind.toJson
  | "status" => (Status.ofJson? j).map Status.toJson
  | "outcome" => (Outcome.ofJson? j).map Outcome.toJson
  | "combined" => (Combined.ofJson? j).map Combined.toJson
  | "directive" => (Directive.ofJson? j).map Directive.toJson
  | "action_config" => (ActionConfig.ofJson? j).map ActionConfig.toJson
  | "requirement_config" => (RequirementConfig.ofJson? j).map RequirementConfig.toJson
  | "trigger_config" => (TriggerConfig.ofJson? j).map TriggerConfig.toJson
  | "trigger_data" => (TriggerData.ofJson? j).map TriggerData.toJson
  | "script" => (ScriptConfig.read? made j).map ScriptConfig.toJson
  | "settings" => (EngineSettings.read? j).map EngineSettings.toJson
  | _ => none

end Cuescript
