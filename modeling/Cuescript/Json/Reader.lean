import Cuescript.Json.Binary
import Cuescript.Text.Numeral

/-!
JSON text read as a value. Every step of the reader consumes characters, so the length of the text
bounds the depth of the recursion; `read?` supplies it.
-/
namespace Cuescript.Json

def isBlank (c : Char) : Bool := c == ' ' || c == '\t' || c == '\n' || c == '\r'

def skipBlanks (cs : List Char) : List Char := cs.dropWhile isBlank

def hexValue? (c : Char) : Option Nat :=
  if c.isDigit then some (c.toNat - 48)
  else if 'a' ≤ c && c ≤ 'f' then some (c.toNat - 87)
  else if 'A' ≤ c && c ≤ 'F' then some (c.toNat - 55)
  else none

def unit? : List Char → Option (Nat × List Char)
  | a :: b :: c :: d :: rest => do
    let n := ((← hexValue? a) * 16 + (← hexValue? b)) * 256 + (← hexValue? c) * 16 + (← hexValue? d)
    some (n, rest)
  | _ => none

/-- The character of an escape of units: a high surrogate has to be followed by a low one. -/
def unitChar? (cs : List Char) : Option (Char × List Char) := do
  let (n, rest) ← unit? cs
  if 0xD800 ≤ n && n < 0xDC00 then
    match rest with
    | '\\' :: 'u' :: more =>
      let (m, rest) ← unit? more
      if 0xDC00 ≤ m && m < 0xE000 then
        some (Char.ofNat (0x10000 + (n - 0xD800) * 1024 + (m - 0xDC00)), rest)
      else none
    | _ => none
  else if 0xDC00 ≤ n && n < 0xE000 then none
  else some (Char.ofNat n, rest)

/-- The rest of a string after its opening quote; `got` holds the last character first. -/
def readString (fuel : Nat) (got : List Char) (cs : List Char) : Option (String × List Char) :=
  match fuel, cs with
  | 0, _ => none
  | _, [] => none
  | _, '"' :: rest => some (String.ofList got.reverse, rest)
  | fuel + 1, '\\' :: c :: rest =>
    match c with
    | '"' => readString fuel ('"' :: got) rest
    | '\\' => readString fuel ('\\' :: got) rest
    | '/' => readString fuel ('/' :: got) rest
    | 'b' => readString fuel (Char.ofNat 8 :: got) rest
    | 'f' => readString fuel (Char.ofNat 12 :: got) rest
    | 'n' => readString fuel ('\n' :: got) rest
    | 'r' => readString fuel ('\r' :: got) rest
    | 't' => readString fuel ('\t' :: got) rest
    | 'u' => (unitChar? rest).bind fun (d, rest) => readString fuel (d :: got) rest
    | _ => none
  | fuel + 1, c :: rest => if c.toNat < 0x20 then none else readString fuel (c :: got) rest

/-- Digits taken into a 64-bit significand, with the count of those that went in; a digit that
does not fit ends the reading. -/
def takeDigits (n : Nat) (taken : Nat) : List Char → Nat × Nat
  | [] => (n, taken)
  | c :: cs =>
    let next := n * 10 + (c.toNat - 48)
    if next < Text.wordLimit then takeDigits next (taken + 1) cs else (n, taken)

/-- A number of the given parts. Whole numbers of 64 bits are exact, all others are floats. -/
def ofParts? (negative : Bool) (whole fraction : List Char) (exponent : Option Int) : Option Json :=
  let (n, taken) := takeDigits 0 0 whole
  let fits := taken = whole.length
  if fits && fraction.isEmpty && exponent.isNone && !negative then some (.int n)
  else if fits && fraction.isEmpty && exponent.isNone && n != 0 && n ≤ Text.wordLimit / 2 then
    some (.int (-Int.ofNat n))
  else
    let (m, places) := takeDigits n 0 fraction
    let e : Int := ((whole.length - taken : Nat) : Int) - (places : Int) + exponent.getD 0
    (Binary.ofDecimal? m e).map fun b => .float (b.shortest negative)

def digits (cs : List Char) : List Char × List Char :=
  (cs.takeWhile Char.isDigit, cs.dropWhile Char.isDigit)

def digitsNumber (cs : List Char) : Nat := cs.foldl (fun n c => n * 10 + (c.toNat - 48)) 0

def readExponent? (cs : List Char) : Option (Option Int × List Char) :=
  match cs with
  | 'e' :: rest | 'E' :: rest =>
    let (minus, rest) := match rest with
      | '-' :: rest => (true, rest)
      | '+' :: rest => (false, rest)
      | _ => (false, rest)
    match digits rest with
    | ([], _) => none
    | (ds, rest) => some (some (if minus then -(digitsNumber ds : Int) else digitsNumber ds), rest)
  | _ => some (none, cs)

def readNumber? (cs : List Char) : Option (Json × List Char) := do
  let (negative, cs) := match cs with
    | '-' :: rest => (true, rest)
    | _ => (false, cs)
  let (whole, rest) := digits cs
  if whole.isEmpty || (whole.head? == some '0' && whole.length > 1) then none
  else
    let (fraction, rest) ← match rest with
      | '.' :: more =>
        match digits more with
        | ([], _) => none
        | (ds, rest) => some (ds, rest)
      | _ => some ([], rest)
    let (exponent, rest) ← readExponent? rest
    let j ← ofParts? negative whole fraction exponent
    some (j, rest)

mutual

def readValue (fuel : Nat) (cs : List Char) : Option (Json × List Char) :=
  match fuel with
  | 0 => none
  | fuel + 1 =>
    match skipBlanks cs with
    | 'n' :: 'u' :: 'l' :: 'l' :: rest => some (.null, rest)
    | 't' :: 'r' :: 'u' :: 'e' :: rest => some (.bool true, rest)
    | 'f' :: 'a' :: 'l' :: 's' :: 'e' :: rest => some (.bool false, rest)
    | '"' :: rest => (readString (rest.length + 1) [] rest).map fun (s, rest) => (.string s, rest)
    | '[' :: rest =>
      match skipBlanks rest with
      | ']' :: rest => some (.array [], rest)
      | rest => (readItems fuel rest).map fun (js, rest) => (.array js, rest)
    | '\x7b' :: rest =>
      match skipBlanks rest with
      | '\x7d' :: rest => some (.object [], rest)
      | rest => (readMembers fuel rest).map fun (ms, rest) => (ofMembers ms, rest)
    | rest => readNumber? rest

def readItems (fuel : Nat) (cs : List Char) : Option (List Json × List Char) :=
  match fuel with
  | 0 => none
  | fuel + 1 => do
    let (j, rest) ← readValue fuel cs
    match skipBlanks rest with
    | ',' :: rest => (readItems fuel rest).map fun (js, rest) => (j :: js, rest)
    | ']' :: rest => some ([j], rest)
    | _ => none

def readMembers (fuel : Nat) (cs : List Char) : Option (List (String × Json) × List Char) :=
  match fuel with
  | 0 => none
  | fuel + 1 => do
    match skipBlanks cs with
    | '"' :: rest =>
      let (k, rest) ← readString (rest.length + 1) [] rest
      match skipBlanks rest with
      | ':' :: rest =>
        let (j, rest) ← readValue fuel rest
        match skipBlanks rest with
        | ',' :: rest => (readMembers fuel rest).map fun (ms, rest) => ((k, j) :: ms, rest)
        | '\x7d' :: rest => some ([(k, j)], rest)
        | _ => none
      | _ => none
    | _ => none

end

def read? (text : String) : Option Json :=
  let cs := text.toList
  match readValue (cs.length + 1) cs with
  | some (j, rest) => if (skipBlanks rest).isEmpty then some j else none
  | none => none

end Cuescript.Json
