import Cuescript.Json.Basic
import Cuescript.Text.Numeral

/-!
JSON values in writing, without blanks. Members are written in the order in which the object
holds them, which is by key.
-/
namespace Cuescript.Json

/-- A character below blank has no other form in a string than an escape. -/
def escape (c : Char) : List Char :=
  if c = '"' then ['\\', '"']
  else if c = '\\' then ['\\', '\\']
  else if 0x20 ≤ c.toNat then [c]
  else if c.toNat = 8 then ['\\', 'b']
  else if c.toNat = 9 then ['\\', 't']
  else if c.toNat = 10 then ['\\', 'n']
  else if c.toNat = 12 then ['\\', 'f']
  else if c.toNat = 13 then ['\\', 'r']
  else ['\\', 'u', '0', '0', Nat.digitChar (c.toNat / 16), Nat.digitChar (c.toNat % 16)]

def quote (s : String) : List Char := '"' :: s.toList.flatMap escape ++ ['"']

def integerText (n : Int) : List Char :=
  if n < 0 then '-' :: Text.decimal n.natAbs else Text.decimal n.natAbs

def exponentText (n : Int) : List Char := if 0 ≤ n then '+' :: integerText n else integerText n

/-- Positional below 10^16 and down to 10^-5, with a point always; else one digit, the others
after a point, and an exponent. -/
def floatText (d : Decimal) : List Char :=
  let ds := Text.decimal d.digits
  let point : Int := (ds.length : Int) + d.exponent
  let body :=
    if d.digits = 0 then ['0', '.', '0']
    else if 0 ≤ d.exponent && point ≤ 16 then
      ds ++ List.replicate d.exponent.toNat '0' ++ ['.', '0']
    else if 0 < point && point ≤ 16 then
      ds.take point.toNat ++ '.' :: ds.drop point.toNat
    else if -5 < point && point ≤ 0 then
      '0' :: '.' :: List.replicate (-point).toNat '0' ++ ds
    else
      let mantissa := match ds with
        | [d] => [d]
        | d :: rest => d :: '.' :: rest
        | [] => []
      mantissa ++ 'e' :: exponentText (point - 1)
  if d.negative then '-' :: body else body

mutual

def chars : Json → List Char
  | .null => "null".toList
  | .bool b => (if b then "true" else "false").toList
  | .int n => integerText n
  | .float d => floatText d
  | .string s => quote s
  | .array items => '[' :: itemChars items ++ [']']
  | .object ms => '\x7b' :: memberChars ms ++ ['\x7d']

def itemChars : List Json → List Char
  | [] => []
  | [j] => chars j
  | j :: rest => chars j ++ ',' :: itemChars rest

def memberChars : List (String × Json) → List Char
  | [] => []
  | [(k, j)] => quote k ++ ':' :: chars j
  | (k, j) :: rest => quote k ++ ':' :: chars j ++ ',' :: memberChars rest

end

def compact (j : Json) : String := String.ofList j.chars

end Cuescript.Json
