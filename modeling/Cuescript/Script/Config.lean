import Cuescript.Script.Document
import Cuescript.Yaml.Document

/-!
The documents of a script and of the engine's settings, and the reading of both.
-/
namespace Cuescript

structure ScriptSettings where
  autoTrigger : Bool
  executeActions : Bool
  deriving DecidableEq, Inhabited

structure ScriptConfig where
  id : String
  title : Option String
  parser : String
  settings : Option ScriptSettings
  lines : List String
  deriving DecidableEq

structure EngineSettings where
  defaults : ScriptSettings
  scriptDir : Option String
  eventCapacity : Nat
  deriving DecidableEq

inductive ConfigError where
  | unreadable (path : String)
  | malformed (path : String)
  | notFound (path : String)
  | duplicateId (id path : String)
  | invalidValue (key reason : String)
  deriving DecidableEq

namespace ConfigError

def cause : ConfigError → String
  | .unreadable _ => "ReadFile"
  | .malformed _ => "ParseYaml"
  | .notFound _ => "NotFound"
  | .duplicateId .. => "DuplicateId"
  | .invalidValue .. => "InvalidValue"

def message : ConfigError → String
  | .unreadable path => "failed to read file " ++ path
  | .malformed path => "failed to parse YAML in " ++ path
  | .notFound path => "script path not found: " ++ path
  | .duplicateId id path => "duplicate script id '" ++ id ++ "' in " ++ path
  | .invalidValue key reason =>
    "invalid configuration value for '" ++ key ++ "': " ++ reason

end ConfigError

open Document

namespace ScriptSettings

def initial : ScriptSettings := ⟨true, true⟩

def read? {δ : Type} [Document δ] (d : δ) : Option ScriptSettings := do
  let fs ← fields? [["auto_trigger"], ["execute_actions"]] d
  let auto ← withDefault true bool? (field fs 0)
  let execute ← withDefault true bool? (field fs 1)
  some ⟨auto, execute⟩

end ScriptSettings

namespace ScriptConfig

def flowParser : String := "flow"

def ofLines (id : String) (lines : List String) : ScriptConfig :=
  ⟨id, none, flowParser, none, lines⟩

def read? {δ : Type} [Document δ] (made : String) (d : δ) : Option ScriptConfig := do
  let fs ← fields? [["id"], ["alias"], ["parser"], ["settings"], ["lines", "art"]] d
  let id ← withDefault made text? (field fs 0)
  let title ← optional text? (field fs 1)
  let parser ← withDefault flowParser text? (field fs 2)
  let settings ← optional ScriptSettings.read? (field fs 3)
  let lines ← withDefault [] (listOf text?) (field fs 4)
  some ⟨id, title, parser, settings, lines⟩

def ofYaml (made text : String) : Except ConfigError ScriptConfig :=
  match (Yaml.parse? text).bind (read? made) with
  | some c => .ok c
  | none => .error (.malformed "<string>")

def effective (c : ScriptConfig) (defaults : ScriptSettings) : ScriptSettings :=
  c.settings.getD defaults

end ScriptConfig

namespace EngineSettings

def initial : EngineSettings := ⟨.initial, none, 256⟩

def read? {δ : Type} [Document δ] (d : δ) : Option EngineSettings := do
  let fs ← fields? [["default_settings"], ["script_dir"], ["event_capacity"]] d
  let defaults ← withDefault .initial ScriptSettings.read? (field fs 0)
  let dir ← optional text? (field fs 1)
  let capacity ← withDefault 256 word? (field fs 2)
  some ⟨defaults, dir, capacity⟩

def validate (s : EngineSettings) : Except ConfigError EngineSettings :=
  if s.eventCapacity = 0 then
    .error (.invalidValue "event_capacity" "must be greater than zero")
  else .ok s

def ofYaml (text path : String) : Except ConfigError EngineSettings :=
  match (Yaml.parse? text).bind read? with
  | some s => s.validate
  | none => .error (.malformed path)

end EngineSettings

end Cuescript
