/-!
JSON values as scripts and trigger data carry them. Integers of 64 bits are exact; any other
number is the shortest decimal of a 64-bit float. An object lists its members by ascending key.
-/
namespace Cuescript

/-- The number `digits * 10 ^ exponent`, negated if `negative` is set. -/
structure Decimal where
  negative : Bool
  digits : Nat
  exponent : Int
  deriving DecidableEq, Inhabited

inductive Json where
  | null
  | bool (b : Bool)
  | int (n : Int)
  | float (d : Decimal)
  | string (s : String)
  | array (items : List Json)
  | object (members : List (String × Json))
  deriving Inhabited

namespace Json

/-- The member is put in its place by key; an earlier member of that key is replaced. -/
def insertMember (key : String) (value : Json) : List (String × Json) → List (String × Json)
  | [] => [(key, value)]
  | (k, v) :: rest =>
    if key < k then (key, value) :: (k, v) :: rest
    else if key = k then (key, value) :: rest
    else (k, v) :: insertMember key value rest

/-- An object of members in any order; the last of several with one key stays. -/
def ofMembers (members : List (String × Json)) : Json :=
  .object (members.foldl (fun ms m => insertMember m.1 m.2 ms) [])

def members : Json → List (String × Json)
  | .object ms => ms
  | _ => []

/-- The value of a member; `null` if there is none, so both read the same. -/
def get (j : Json) (key : String) : Json := (j.members.lookup key).getD .null

def ofStrings (ss : List String) : Json := .array (ss.map .string)

def ofOption {α : Type} (f : α → Json) : Option α → Json
  | some a => f a
  | none => .null

def string? : Json → Option String
  | .string s => some s
  | _ => none

def int? : Json → Option Int
  | .int n => some n
  | _ => none

def isNull : Json → Bool
  | .null => true
  | _ => false

end Json

end Cuescript
