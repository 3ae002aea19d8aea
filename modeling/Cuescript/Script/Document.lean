import Cuescript.Json.Basic
import Cuescript.Text.Numeral

/-!
What can be read from a document, whatever its format: texts, truth values, numbers, lists, and
the fields of a structure. A field may have several names. The readers below are the same for all
formats.
-/
namespace Cuescript

class Document (δ : Type) where
  text? : δ → Option String
  bool? : δ → Option Bool
  word? : δ → Option Nat
  items? : δ → Option (List δ)
  /-- Whether the document says that there is no value; `none` if it contradicts itself. -/
  isAbsent? : δ → Option Bool
  /-- The fields of a structure, in the order of their names. A field that is not there is `none`;
  one that is there twice, or under two of its names, makes the structure unreadable. -/
  fields? : List (List String) → δ → Option (List (Option δ))

namespace Document

variable {δ α : Type}

def field (fs : List (Option δ)) (n : Nat) : Option δ := (fs[n]?).join

def required (read : δ → Option α) (field : Option δ) : Option α := field.bind read

def withDefault (default : α) (read : δ → Option α) (field : Option δ) : Option α :=
  match field with
  | some d => read d
  | none => some default

def optional [Document δ] (read : δ → Option α) (field : Option δ) : Option (Option α) :=
  match field with
  | some d => (isAbsent? d).bind fun absent => if absent then some none else (read d).map some
  | none => some none

def listOf [Document δ] (read : δ → Option α) (d : δ) : Option (List α) :=
  (items? d).bind fun ds => ds.mapM read

end Document

/-- A JSON value as a document. A structure is an object, or an array of its fields in order. -/
instance : Document Json where
  text? := Json.string?
  bool? | .bool b => some b
        | _ => none
  word? | .int n => if 0 ≤ n && n < (Text.wordLimit : Int) then some n.toNat else none
        | _ => none
  items? | .array items => some items
         | _ => none
  isAbsent? j := some j.isNull
  fields? names
    | .object members =>
      names.mapM fun ns =>
        match ns.filterMap fun n => members.lookup n with
        | [] => some none
        | [v] => some (some v)
        | _ => none
    | .array items =>
      if items.length ≤ names.length then
        some (items.map some ++ List.replicate (names.length - items.length) none)
      else none
    | _ => none

end Cuescript
