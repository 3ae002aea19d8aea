import Cuescript.Catalogue.Actions

/-!
The requirements and the triggers of the standard catalogue.
-/
namespace Cuescript.Catalogue

open Options

structure Verdict where
  kind : String
  message : String

def Verdict.schema : Schema Verdict :=
  Schema.empty
    |>.option "kind" (writeText fun v s => { v with kind := s })
    |>.atPosition 0
    |>.option "message" (writeText fun v s => { v with message := s })
    |>.atPosition 1

/-- The outcome of that kind; an unknown word stands for no outcome at all. -/
def Verdict.outcome (v : Verdict) : Outcome :=
  let o : Outcome :=
    if v.kind = "success" then .success [] else if v.kind = "failure" then .failure [] else .empty
  if v.message = "" then o else o.withMessage v.message

def health : Blueprint Requirement :=
  .ofSchema .player ((Schema.empty.option "min" (Write.of (readNat 32) fun _ n => n)).atPosition 0)
    0 fun least =>
      ⟨.player, fun
        | .player name health, _ =>
          .ofOutcome <|
            if least ≤ health then .passed
            else .failed (name ++ " has less than " ++ toString least ++ " health")
        | _, _ => .ofOutcome .empty⟩

def named : Blueprint Requirement :=
  .ofSchema .player ((Schema.empty.option "name" (writeText fun _ s => s)).atPosition 0) ""
    fun wanted =>
      ⟨.player, fun
        | .player name _, _ => ⟨["tested " ++ wanted], .ofBool (name == wanted)⟩
        | _, _ => .ofOutcome .empty⟩

def result : Blueprint Requirement :=
  .ofSchema .player Verdict.schema ⟨"", ""⟩ fun v =>
    ⟨.player, fun _ _ => ⟨["result " ++ v.kind], v.outcome⟩⟩

structure Expectation where
  key : String
  value : String

def Expectation.schema : Schema Expectation :=
  Schema.empty
    |>.option "key" (writeText fun e s => { e with key := s })
    |>.atPosition 0
    |>.require
    |>.option "value" (writeText fun e s => { e with value := s })
    |>.atPosition 1

def var : Blueprint Requirement :=
  .ofSchema .player Expectation.schema ⟨"", ""⟩ fun e =>
    ⟨.player, fun _ c =>
      .ofOutcome <|
        if (c.lookup? e.key).bind Json.string? = some e.value then .success [e.key ++ " ok"]
        else .failed (e.key ++ " is " ++ valueText (c.lookup? e.key))⟩

def occursIn (part : List Char) : List Char → Bool
  | [] => part.isEmpty
  | c :: rest => part.isPrefixOf (c :: rest) || occursIn part rest

def contains : Blueprint Requirement :=
  .ofSchema .text ((Schema.empty.option "part" (writeText fun _ s => s)).atPosition 0) ""
    fun part =>
      ⟨.text, fun
        | .text value, _ =>
          .ofOutcome <|
            (Outcome.ofBool (occursIn part.toList value.toList)).withMessage ("contains " ++ part)
        | _, _ => .ofOutcome .empty⟩

def join : Blueprint Trigger :=
  .ofSchema .player
    ((Schema.empty.option "region" (writeText fun _ s => some s)).atPosition 0) none
    fun region =>
      ⟨.player, fun _ d =>
        .ofOutcome <|
          match region with
          | none => .passed
          | some r =>
            if (d.lookup? "region").bind Json.string? = some r then .passed
            else .failed ("not in region " ++ r)⟩

def always (type : NativeType) : Blueprint Trigger :=
  .ofSchema type Schema.empty () fun _ => ⟨type, fun _ _ => .ofOutcome .passed⟩

def gate : Blueprint Trigger :=
  .ofSchema .player Verdict.schema ⟨"", ""⟩ fun v =>
    ⟨.player, fun _ _ => ⟨["gate " ++ v.kind], v.outcome⟩⟩

def requirements : List (String × Blueprint Requirement) :=
  [("health", health), ("named", named), ("result", result), ("var", var), ("contains", contains)]

def triggers : List (String × Blueprint Trigger) :=
  [("join", join), ("leave", always .player), ("gate", gate), ("announce", always .text)]

def find? (kind : Kind) (name : String) : Option AnyBlueprint :=
  match kind with
  | .action => (actions.lookup name).map .action
  | .requirement => (requirements.lookup name).map .requirement
  | .trigger => (triggers.lookup name).map .trigger

def describe (name : String) : List String × Option String :=
  if name = "join" then (["login", "Player.Enter"], some "player joined") else ([], none)

def registry : Registry :=
  let r := actions.foldl (fun r c => r.register (.action c.2) c.1 [] none) Registry.empty
  let r := requirements.foldl (fun r c => r.register (.requirement c.2) c.1 [] none) r
  triggers.foldl (fun r c => r.register (.trigger c.2) c.1 (describe c.1).1 (describe c.1).2) r

end Cuescript.Catalogue
