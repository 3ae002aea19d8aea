import Cuescript.Table

/-!
What scripts are run against. A native value is wrapped into a target under an id; an adapter
says how values of one type get their ids. Values of a type without an adapter are no targets.
-/
namespace Cuescript

inductive NativeType where
  | player
  | text
  | number
  deriving DecidableEq, Inhabited

namespace NativeType

def all : List NativeType := [.player, .text, .number]

def name : NativeType → String
  | .player => "Player"
  | .text => "String"
  | .number => "u32"

end NativeType

inductive Native where
  | player (name : String) (health : Nat)
  | text (value : String)
  | number (value : Nat)
  deriving DecidableEq, Inhabited

namespace Native

def type : Native → NativeType
  | .player .. => .player
  | .text _ => .text
  | .number _ => .number

def label : Native → String
  | .player name _ => name
  | .text value => value
  | .number value => toString value

def summary : Native → String
  | .player name health => name ++ "/" ++ toString health
  | .text value => value
  | .number value => toString value

end Native

/-- A value together with the id under which its executions are remembered. -/
structure Target where
  id : String
  value : Native
  deriving DecidableEq, Inhabited

def Target.type (t : Target) : NativeType := t.value.type

/-- How values get their ids: each type with an adapter has one function from values to ids. -/
structure Adapters where
  table : Table NativeType (Native → String)

namespace Adapters

def empty : Adapters := ⟨Table.empty⟩

def register (a : Adapters) (type : NativeType) (identify : Native → String) : Adapters :=
  ⟨a.table.set type identify⟩

def registerLabelled (a : Adapters) (type : NativeType) (before : String) : Adapters :=
  a.register type fun v => before ++ v.label

def contains (a : Adapters) (type : NativeType) : Bool := a.table.contains type

def size (a : Adapters) : Nat := a.table.size

def typeNames (a : Adapters) : List String :=
  (a.table.keys.map NativeType.name).mergeSort fun s t => s ≤ t

def wrap (a : Adapters) (v : Native) : Option Target :=
  (a.table.get? v.type).map fun identify => ⟨identify v, v⟩

end Adapters

end Cuescript
