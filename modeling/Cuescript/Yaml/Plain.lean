import Cuescript.Json.Binary
import Cuescript.Text.Numeral

/-!
What a plain scalar stands for: nothing, a truth value, an integer, a float, or its own text.
Numbers may have a sign, integers also a base; digits after a leading zero are a text.
-/
namespace Cuescript.Yaml

def isNullWord (s : String) : Bool := ["null", "Null", "NULL", "~"].contains s

def boolWord? (s : String) : Option Bool :=
  if ["true", "True", "TRUE"].contains s then some true
  else if ["false", "False", "FALSE"].contains s then some false
  else none

def baseDigit? (base : Nat) (c : Char) : Option Nat :=
  let n :=
    if c.isDigit then c.toNat - 48
    else if 'a' ≤ c && c ≤ 'f' then c.toNat - 87
    else if 'A' ≤ c && c ≤ 'F' then c.toNat - 55
    else base
  if n < base then some n else none

def inBase? (base : Nat) (cs : List Char) : Option Nat :=
  if cs.isEmpty then none
  else cs.foldlM (fun n c => (baseDigit? base c).map (n * base + ·)) 0

def hasLeadingZero (cs : List Char) : Bool :=
  cs.length > 1 && cs.head? == some '0' && cs.all Char.isDigit

/-- A number without its sign: in base sixteen, eight or two after a mark, else in base ten. -/
def magnitude? (cs : List Char) : Option Nat :=
  match cs with
  | '0' :: 'x' :: rest => inBase? 16 rest
  | '0' :: 'o' :: rest => inBase? 8 rest
  | '0' :: 'b' :: rest => inBase? 2 rest
  | _ => if hasLeadingZero cs then none else inBase? 10 cs

def integer? (s : String) : Option Int :=
  match s.toList with
  | '-' :: rest => (magnitude? rest).map fun n => -(n : Int)
  | '+' :: rest => (magnitude? rest).map Int.ofNat
  | cs => (magnitude? cs).map Int.ofNat

/-- A natural number of 64 bits. A minus sign is not allowed, not even before zero. -/
def word? (s : String) : Option Nat :=
  if s.startsWith "-" then none
  else (integer? s).bind fun n => if n < (Text.wordLimit : Int) then some n.toNat else none

def isInfinite (digits : Nat) (exponent : Int) : Bool :=
  if digits = 0 then false
  else
    let top : Int := ((Text.decimal digits).length : Int) + exponent
    if top > 310 then true
    else if top < 300 then false
    else
      let (num, den) := Binary.scaled digits 10 exponent
      (Binary.nearest num den).isInfinite

def exponent? (cs : List Char) : Option Int :=
  match cs with
  | [] => some 0
  | c :: rest =>
    if c == 'e' || c == 'E' then
      match rest with
      | '-' :: ds => if ds.all Char.isDigit then (inBase? 10 ds).map fun n => -(n : Int) else none
      | '+' :: ds => if ds.all Char.isDigit then (inBase? 10 ds).map Int.ofNat else none
      | ds => if ds.all Char.isDigit then (inBase? 10 ds).map Int.ofNat else none
    else none

/-- Whether an unsigned text is a finite float: digits with or without a point among them, and an
exponent if any. -/
def isFiniteText (cs : List Char) : Bool :=
  let whole := cs.takeWhile Char.isDigit
  let rest := cs.dropWhile Char.isDigit
  let (fraction, rest) := match rest with
    | '.' :: more => (more.takeWhile Char.isDigit, more.dropWhile Char.isDigit)
    | _ => ([], rest)
  if (whole ++ fraction).isEmpty then false
  else
    match exponent? rest with
    | none => false
    | some e => !isInfinite (Text.digitsValue 0 (whole ++ fraction)) (e - fraction.length)

def isFloat (s : String) : Bool :=
  [".inf", ".Inf", ".INF", "+.inf", "+.Inf", "+.INF", "-.inf", "-.Inf", "-.INF", ".nan", ".NaN",
    ".NAN"].contains s ||
  match s.toList with
  | '-' :: rest => isFiniteText rest
  | '+' :: rest => isFiniteText rest
  | cs => isFiniteText cs

def isZeroPadded (s : String) : Bool :=
  match s.toList with
  | '-' :: rest | '+' :: rest => hasLeadingZero rest
  | cs => hasLeadingZero cs

end Cuescript.Yaml
