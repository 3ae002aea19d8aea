import Cuescript.Component.Registry
import Cuescript.Json.Printer

/-!
The actions of the standard catalogue, for players, texts and numbers.
-/
namespace Cuescript.Catalogue

open Options

def writeText {γ : Type} (put : γ → String → γ) : Write γ := Write.of .ok put

def valueText : Option Json → String
  | some j => j.compact
  | none => "unset"

def playerTextAction (key : String) (body : String → Nat → Context → String → Report Conclusion) :
    Blueprint Action :=
  .ofSchema .player ((Schema.empty.option key (writeText fun _ s => s)).atPosition 0) "" fun text =>
    ⟨.player, fun
      | .player name health, c => body name health c text
      | _, _ => ⟨[], .ended .empty⟩⟩

def heal : Blueprint Action :=
  .ofSchema .player
    ((Schema.empty.option "amount" (Write.of (readNat 32) fun _ n => n)).atPosition 0) 0
    fun amount =>
      ⟨.player, fun
        | .player name _, c =>
          let source := match c.lookup? "source" with
            | some (.string s) => " from " ++ s
            | _ => ""
          ⟨["heal " ++ name ++ " " ++ toString amount ++ source], .ended .passed⟩
        | _, _ => ⟨[], .ended .empty⟩⟩

def log : Blueprint Action :=
  playerTextAction "text" fun _ _ _ text => ⟨["log " ++ text], .ended .passed⟩

def say : Blueprint Action :=
  .ofSchema .player
    ((Schema.empty.option "message" (writeText fun _ s => s)).atPosition 0
      |>.require |>.describe "text to say") "" fun message =>
    ⟨.player, fun
      | .player name _, _ => ⟨[], .ended (.success [name ++ ": " ++ message])⟩
      | _, _ => ⟨[], .ended .empty⟩⟩

def fail : Blueprint Action :=
  .ofSchema .player
    ((Schema.empty.option "reason" (writeText fun _ s => some s)).atPosition 0) none
    fun reason => ⟨.player, fun _ _ => ⟨[], .ended (.failed (reason.getD "boom"))⟩⟩

def explode : Blueprint Action :=
  playerTextAction "mode" fun name _ _ mode =>
    ⟨[], .crashed <|
      if mode = "" then some "kaboom"
      else if mode = "other" then none
      else some (name ++ " exploded: " ++ mode)⟩

def skip : Blueprint Action :=
  .ofSchema .player Schema.empty () fun _ => ⟨.player, fun _ _ => ⟨["skip"], .ended .empty⟩⟩

def echo : Blueprint Action :=
  playerTextAction "var" fun _ _ c var =>
    let id := (c.trigger.map (·.identifier)).getD "-"
    ⟨[], .ended (.success [id ++ " " ++ var ++ "=" ++ valueText (c.lookup? var)])⟩

def shout : Blueprint Action :=
  .ofSchema .text ((Schema.empty.option "suffix" (writeText fun _ s => s)).atPosition 0) ""
    fun suffix =>
      ⟨.text, fun
        | .text value, _ => ⟨["shout " ++ value], .ended (.success [value ++ suffix])⟩
        | _, _ => ⟨[], .ended .empty⟩⟩

def ping : Blueprint Action :=
  .ofSchema .number
    ((Schema.empty.option "by" (Write.of (readSigned 64) fun _ n => n)).atPosition 0) 0
    fun step =>
      ⟨.number, fun
        | .number value, _ => ⟨[], .ended (.success ["ping " ++ toString ((value : Int) + step)])⟩
        | _, _ => ⟨[], .ended .empty⟩⟩

structure Location where
  x : Int
  y : Int

def Location.schema : Schema Location :=
  Schema.empty
    |>.option "x" (Write.of (readSigned 64) fun l n => { l with x := n })
    |>.require
    |>.option "y" (Write.of (readSigned 64) fun l n => { l with y := n })
    |>.atPosition 0

structure Journey where
  number : Nat
  name : String
  silent : Bool
  wait : Duration
  location : Location

def Journey.schema : Schema Journey :=
  Schema.empty
    |>.option "number" (Write.of (readNat 32) fun j n => { j with number := n })
    |>.atPosition 3
    |>.option "name" (writeText fun j s => { j with name := s })
    |>.atPosition 1
    |>.require
    |>.describe "name of the destination"
    |>.option "silent" (Write.of readFlag fun j b => { j with silent := b })
    |>.option "wait-time" (Write.of readDuration fun j d => { j with wait := d })
    |>.describe "pause first"
    |>.nest "location" ⟨Journey.location, fun j l => { j with location := l }⟩ Location.schema

def Journey.text (j : Journey) (wait : String) : String :=
  j.name ++ "#" ++ toString j.number ++ " silent=" ++ (if j.silent then "true" else "false")
    ++ " wait=" ++ wait ++ " at " ++ toString j.location.x ++ "," ++ toString j.location.y

/-- The traveller is told of the journey. This crashes where the time to wait has no text. -/
def Journey.conclusion (j : Journey) (player : String) : Conclusion :=
  match j.wait.text? with
  | some wait => .ended (.success [player ++ " -> " ++ j.text wait])
  | none => .crashed (some Duration.overflow)

def teleport : Blueprint Action :=
  .ofSchema .player Journey.schema ⟨0, "", false, .zero, ⟨0, 0⟩⟩ fun journey =>
    ⟨.player, fun
      | .player name _, _ => ⟨[], journey.conclusion name⟩
      | _, _ => ⟨[], .ended .empty⟩⟩

def actions : List (String × Blueprint Action) :=
  [("heal", heal), ("log", log), ("say", say), ("fail", fail), ("explode", explode),
    ("skip", skip), ("echo", echo), ("shout", shout), ("ping", ping), ("teleport", teleport)]

end Cuescript.Catalogue
