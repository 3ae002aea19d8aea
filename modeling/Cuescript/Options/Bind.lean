import Cuescript.Options.Error
import Cuescript.Options.Schema
import Cuescript.Options.Token

/-!
Option text applied to a config. A keyed token goes to the option of that key, a bare value to
the next position; the first token that fails ends the work, and what was written before it stays.
-/
namespace Cuescript.Options

/-- The config after an application, and what stopped it, if anything did. -/
structure Applied (γ : Type) where
  config : γ
  stopped : Option BindError

namespace Schema

variable {γ : Type}

/-- The options with a position, in ascending order of it; equal positions in order of
declaration. -/
def positional (s : Schema γ) : List (Decl γ) :=
  (s.decls.filter (·.position.isSome)).mergeSort
    fun d e => d.position.getD 0 ≤ e.position.getD 0

def clash? : List (Decl γ) → Option BindError
  | d :: e :: rest =>
    if d.position = e.position then
      some (.duplicatePosition (d.position.getD 0) d.key e.key)
    else clash? (e :: rest)
  | _ => none

/-- Where a token goes and with which value. `bare` is set if it takes the next position. -/
structure Destination (γ : Type) where
  decl : Decl γ
  value : String
  bare : Bool

def nextPosition (slots : List (Decl γ)) (value : String) : Except BindError (Destination γ) :=
  match slots with
  | d :: _ => .ok ⟨d, value, true⟩
  | [] => .error (.unexpectedValue value)

/-- Text such as `12:30` is a value and no key, unless an option has that key. -/
def destination (s : Schema γ) (slots : List (Decl γ)) (t : Token) :
    Except BindError (Destination γ) :=
  match t.key with
  | none => nextPosition slots t.value
  | some key =>
    match s.find? key with
    | some d => .ok ⟨d, t.value, false⟩
    | none =>
      match t.separator with
      | .colon => nextPosition slots (key ++ ":" ++ t.value)
      | .equals => .error (.unknownOption key)

def missing? (s : Schema γ) (seen : List String) : Option BindError :=
  (s.decls.find? fun d => d.required && !seen.contains d.key).map fun d => .missingRequired d.key

/-- Applies tokens from left to right. `slots` are the positions still free, `seen` the keys of
the options that were given. -/
def applyTokens (s : Schema γ) (slots : List (Decl γ)) (seen : List String) (config : γ) :
    List Token → Applied γ
  | [] => ⟨config, s.missing? seen⟩
  | t :: rest =>
    match s.destination slots t with
    | .error e => ⟨config, some e⟩
    | .ok dest =>
      match dest.decl.write config dest.value with
      | (config, .error reason) => ⟨config, some (.invalidValue dest.decl.key dest.value reason)⟩
      | (config, .ok ()) =>
        s.applyTokens (if dest.bare then slots.tail else slots) (dest.decl.key :: seen) config rest

def apply (s : Schema γ) (config : γ) (text : String) : Applied γ :=
  match clash? s.positional with
  | some e => ⟨config, some e⟩
  | none =>
    match tokenize? text with
    | none => ⟨config, some (.unterminatedQuote text)⟩
    | some tokens => s.applyTokens s.positional [] config tokens

def bind (s : Schema γ) (initial : γ) (text : String) : Except BindError γ :=
  let applied := s.apply initial text
  match applied.stopped with
  | some e => .error e
  | none => .ok applied.config

end Schema

end Cuescript.Options
