import Cuescript.Text.Lowercase
import Cuescript.Time.Notation

/-!
Readers for the values of options. Each takes the text of a value, allows blanks around it, and
gives the value or the reason for refusing it.
-/
namespace Cuescript.Options

abbrev Reading (α : Type) := Except String α

def readInteger (lo hi : Int) (text : String) : Reading Int :=
  (Text.readInteger lo hi (Text.trim text.toList)).mapError Text.NumeralError.message

def readNat (bits : Nat) (text : String) : Reading Nat :=
  (readInteger 0 ((Nat.pow 2 bits : Int) - 1) text).map Int.toNat

def readSigned (bits : Nat) (text : String) : Reading Int :=
  let bound : Int := Nat.pow 2 (bits - 1)
  readInteger (-bound) (bound - 1) text

def readBool (text : String) : Reading Bool :=
  let t := Text.trimmed text
  if t = "true" then .ok true
  else if t = "false" then .ok false
  else .error (String.ofList ("provided string was not ".toList ++ [Char.ofNat 96] ++ "true".toList
    ++ [Char.ofNat 96] ++ " or ".toList ++ [Char.ofNat 96] ++ "false".toList ++ [Char.ofNat 96]))

def readChar (text : String) : Reading Char :=
  match Text.trim text.toList with
  | [c] => .ok c
  | [] => .error "cannot parse char from empty string"
  | _ => .error "too many characters in string"

/-- A flag: several words for yes and no in any case. A flag that is only named is set. -/
def readFlag (text : String) : Reading Bool :=
  let t := Text.lowercase (Text.trimmed text)
  if t ∈ ["", "true", "yes", "on", "1"] then .ok true
  else if t ∈ ["false", "no", "off", "0"] then .ok false
  else .error ("expected a boolean, got '" ++ t ++ "'")

def readDuration (text : String) : Reading Duration :=
  match Duration.read? text with
  | some d => .ok d
  | none => .error "expected a duration like 500, 5s or 1h30m"

end Cuescript.Options
