import Cuescript.Text.Lowercase
import Cuescript.Options.Value

/-!
The options a config declares. A declaration has a key, perhaps a position, and a way to write a
value into the config; a schema lists declarations and can embed the schema of a part of the
config under a prefix. Keys are compared without regard to case, and `-` stands for `_`.
-/
namespace Cuescript.Options

/-- How a config `γ` takes the text of a value: the config afterwards, and whether the value was
refused. A refused value may still have left its mark on the config. -/
abbrev Write (γ : Type) := γ → String → γ × Reading Unit

structure Decl (γ : Type) where
  key : String
  position : Option Nat
  required : Bool
  description : Option String
  write : Write γ

structure Schema (γ : Type) where
  decls : List (Decl γ)

structure Place (γ δ : Type) where
  get : γ → δ
  put : γ → δ → γ

/-- A value is read and put in its place; a refused one changes nothing. -/
def Write.of {γ α : Type} (read : String → Reading α) (put : γ → α → γ) : Write γ :=
  fun config text =>
    match read text with
    | .ok a => (put config a, .ok ())
    | .error reason => (config, .error reason)

/-- Writes into a part of the config. The part is put back even if the value is refused. -/
def Write.within {γ δ : Type} (place : Place γ δ) (write : Write δ) : Write γ :=
  fun config text =>
    let (part, result) := write (place.get config) text
    (place.put config part, result)

def normalizeKey (key : String) : String :=
  String.ofList <| (Text.lower (Text.trim key.toList)).map fun c => if c = '-' then '_' else c

namespace Schema

variable {γ δ : Type}

def empty : Schema γ := ⟨[]⟩

def option (s : Schema γ) (key : String) (write : Write γ) : Schema γ :=
  ⟨s.decls ++ [⟨key, none, false, none, write⟩]⟩

def modifyLast (s : Schema γ) (f : Decl γ → Decl γ) : Schema γ :=
  match s.decls.getLast? with
  | some d => ⟨s.decls.dropLast ++ [f d]⟩
  | none => s

def atPosition (s : Schema γ) (position : Nat) : Schema γ :=
  s.modifyLast fun d => { d with position := some position }

def require (s : Schema γ) : Schema γ := s.modifyLast fun d => { d with required := true }

def describe (s : Schema γ) (text : String) : Schema γ :=
  s.modifyLast fun d => { d with description := some text }

/-- The declaration of an option of a part, seen from the whole: a longer key, no position. -/
def embedded (label : String) (place : Place γ δ) (d : Decl δ) : Decl γ :=
  { key := label ++ "." ++ d.key
    position := none
    required := d.required
    description := d.description
    write := d.write.within place }

def nest (s : Schema γ) (label : String) (place : Place γ δ) (part : Schema δ) : Schema γ :=
  ⟨s.decls ++ part.decls.map (embedded label place)⟩

def find? (s : Schema γ) (key : String) : Option (Decl γ) :=
  s.decls.find? fun d => normalizeKey d.key == normalizeKey key

end Schema

end Cuescript.Options
