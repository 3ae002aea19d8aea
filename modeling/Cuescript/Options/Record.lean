import Cuescript.Json.Basic
import Cuescript.Options.Schema

/-!
Free-form configs, for schemas that are put together while the program runs. A record holds the
values given by key and one record for each embedded schema that was written to.
-/
namespace Cuescript.Options

inductive ValueKind where
  | string
  | trimmed
  | signed (bits : Nat)
  | natural (bits : Nat)
  | bool
  | char
  | flag
  | duration
  | reject
  | list

namespace ValueKind

/-- Reads a value of the kind; durations are given as text, in milliseconds. -/
def read (kind : ValueKind) (text : String) : Reading Json :=
  match kind with
  | .string | .list => .ok (.string text)
  | .trimmed => .ok (.string (Text.trimmed text))
  | .signed bits => (readSigned bits text).map .int
  | .natural bits => (readNat bits text).map fun n => .int n
  | .bool => (readBool text).map .bool
  | .char => (readChar text).map fun c => .string (String.singleton c)
  | .flag => (readFlag text).map .bool
  | .duration => (readDuration text).map fun d => .string (toString d.millis)
  | .reject => .error ("rejected " ++ text)

end ValueKind

structure Record where
  values : List (String × Json)
  nested : List (Nat × Record)

namespace Record

def empty : Record := ⟨[], []⟩

def set (r : Record) (key : String) (value : Json) : Record :=
  { r with values := Json.insertMember key value r.values }

def append (r : Record) (key : String) (value : Json) : Record :=
  match r.values.lookup key with
  | some (.array items) => r.set key (.array (items ++ [value]))
  | _ => r.set key (.array [value])

def putPart (index : Nat) (part : Record) : List (Nat × Record) → List (Nat × Record)
  | [] => [(index, part)]
  | (i, r) :: rest => if i = index then (i, part) :: rest else (i, r) :: putPart index part rest

/-- The record of the embedded schema of this number; it is there once it was written to. -/
def part (index : Nat) : Place Record Record where
  get r := (r.nested.lookup index).getD empty
  put r p := { r with nested := putPart index p r.nested }

def write (key : String) (kind : ValueKind) : Write Record :=
  match kind with
  | .list => Write.of kind.read fun r value => r.append key value
  | _ => Write.of kind.read fun r value => r.set key value

mutual

def toJson : Record → Json
  | ⟨values, nested⟩ =>
    .ofMembers [("values", .ofMembers values), ("nested", .ofMembers (partsToJson nested))]

def partsToJson : List (Nat × Record) → List (String × Json)
  | [] => []
  | (i, r) :: rest => (toString i, toJson r) :: partsToJson rest

end

end Record

inductive SchemaStep where
  | option (key : String) (kind : ValueKind)
  | position (n : Nat)
  | required
  | description (text : String)
  | nest (label : String) (steps : List SchemaStep)

/-- The schema of a record. `parts` counts the schemas embedded so far. -/
def Schema.ofSteps (s : Schema Record) (parts : Nat) : List SchemaStep → Schema Record
  | [] => s
  | .option key kind :: rest => ofSteps (s.option key (Record.write key kind)) parts rest
  | .position n :: rest => ofSteps (s.atPosition n) parts rest
  | .required :: rest => ofSteps s.require parts rest
  | .description text :: rest => ofSteps (s.describe text) parts rest
  | .nest label steps :: rest =>
    ofSteps (s.nest label (Record.part parts) (ofSteps Schema.empty 0 steps)) (parts + 1) rest

end Cuescript.Options
