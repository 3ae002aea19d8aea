import Cuescript.Component.Basic
import Cuescript.Directive.Basic
import Cuescript.Options.Bind
import Cuescript.Table
import Cuescript.Text.Lowercase

/-!
The components that scripts can name. A component is registered under an identifier and perhaps
under aliases; all names are looked up without regard to case. An identifier replaces whatever had
the name before, an alias is only added where the name is free. Each registration has a serial
number, so that all of its names can be taken away together.
-/
namespace Cuescript

structure OptionInfo where
  key : String
  position : Option Nat
  required : Bool
  description : Option String
  deriving DecidableEq

def OptionInfo.ofSchema {γ : Type} (s : Options.Schema γ) : List OptionInfo :=
  s.decls.map fun d => ⟨d.key, d.position, d.required, d.description⟩

structure ComponentInfo where
  kind : Kind
  identifier : String
  target : NativeType
  aliases : List String
  description : Option String
  options : List OptionInfo
  deriving DecidableEq

def ComponentInfo.names (i : ComponentInfo) : List String := i.identifier :: i.aliases

/-- A component that has no name yet: how it is made of option text. -/
structure Blueprint (α : Type) where
  target : NativeType
  options : List OptionInfo
  create : String → Except Options.BindError α

def Blueprint.ofSchema {γ α : Type} (target : NativeType) (schema : Options.Schema γ)
    (initial : γ) (make : γ → α) : Blueprint α :=
  ⟨target, OptionInfo.ofSchema schema, fun text => (schema.bind initial text).map make⟩

structure Factory (α : Type) where
  serial : Nat
  info : ComponentInfo
  create : String → Except Options.BindError α

abbrev Shelf (α : Type) := Table String (Factory α)

namespace Shelf

variable {α : Type}

def keyOf (identifier : String) : String := Text.lowercase identifier

def find? (s : Shelf α) (identifier : String) : Option (Factory α) := s.get? (keyOf identifier)

def addAlias (f : Factory α) (s : Shelf α) (name : String) : Shelf α :=
  if s.contains (keyOf name) then s else s.set (keyOf name) f

def add (s : Shelf α) (f : Factory α) : Shelf α :=
  f.info.aliases.foldl (addAlias f) (s.set (keyOf f.info.identifier) f)

def remove (s : Shelf α) (identifier : String) : Bool × Shelf α :=
  match s.find? identifier with
  | none => (false, s)
  | some f => (true, s.keep fun e => e.2.serial ≠ f.serial)

/-- The identifiers under which registrations stand; aliases are not among them. -/
def primaries (s : Shelf α) : List String :=
  (s.entries.filter fun e => e.1 = keyOf e.2.info.identifier).map (·.2.info.identifier)

end Shelf

inductive AnyBlueprint where
  | action (b : Blueprint Action)
  | requirement (b : Blueprint Requirement)
  | trigger (b : Blueprint Trigger)

structure Registry where
  actions : Shelf Action
  requirements : Shelf Requirement
  triggers : Shelf Trigger
  nextSerial : Nat

namespace Registry

def empty : Registry := ⟨Table.empty, Table.empty, Table.empty, 0⟩

def register (r : Registry) (component : AnyBlueprint) (identifier : String)
    (aliases : List String) (description : Option String) : Registry :=
  match component with
  | .action b =>
    { r with
      actions := r.actions.add
        ⟨r.nextSerial, ⟨.action, identifier, b.target, aliases, description, b.options⟩, b.create⟩
      nextSerial := r.nextSerial + 1 }
  | .requirement b =>
    { r with
      requirements := r.requirements.add
        ⟨r.nextSerial, ⟨.requirement, identifier, b.target, aliases, description, b.options⟩,
          b.create⟩
      nextSerial := r.nextSerial + 1 }
  | .trigger b =>
    { r with
      triggers := r.triggers.add
        ⟨r.nextSerial, ⟨.trigger, identifier, b.target, aliases, description, b.options⟩, b.create⟩
      nextSerial := r.nextSerial + 1 }

def unregister (r : Registry) (kind : Kind) (identifier : String) : Bool × Registry :=
  match kind with
  | .action =>
    let (removed, shelf) := r.actions.remove identifier
    (removed, { r with actions := shelf })
  | .requirement =>
    let (removed, shelf) := r.requirements.remove identifier
    (removed, { r with requirements := shelf })
  | .trigger =>
    let (removed, shelf) := r.triggers.remove identifier
    (removed, { r with triggers := shelf })

def describe (r : Registry) (kind : Kind) (identifier : String) : Option ComponentInfo :=
  match kind with
  | .action => (r.actions.find? identifier).map (·.info)
  | .requirement => (r.requirements.find? identifier).map (·.info)
  | .trigger => (r.triggers.find? identifier).map (·.info)

def serial? (r : Registry) (kind : Kind) (identifier : String) : Option Nat :=
  match kind with
  | .action => (r.actions.find? identifier).map (·.serial)
  | .requirement => (r.requirements.find? identifier).map (·.serial)
  | .trigger => (r.triggers.find? identifier).map (·.serial)

def contains (r : Registry) (kind : Kind) (identifier : String) : Bool :=
  (r.serial? kind identifier).isSome

def primaries (r : Registry) (kind : Kind) : List String :=
  match kind with
  | .action => r.actions.primaries
  | .requirement => r.requirements.primaries
  | .trigger => r.triggers.primaries

def identifiers (r : Registry) (kind : Kind) : List String :=
  (r.primaries kind).mergeSort fun a b => a ≤ b

def size (r : Registry) : Nat :=
  r.actions.primaries.length + r.requirements.primaries.length + r.triggers.primaries.length

def isEmpty (r : Registry) : Bool := r.size == 0

/-- The type of the component that a name and option text make, if the name leads to one. -/
def create (r : Registry) (kind : Kind) (identifier options : String) :
    Except Options.BindError (Option NativeType) :=
  match kind with
  | .action => made (r.actions.find? identifier) Action.accepts
  | .requirement => made (r.requirements.find? identifier) Requirement.accepts
  | .trigger => made (r.triggers.find? identifier) Trigger.accepts
where
  made {α : Type} (factory : Option (Factory α)) (type : α → NativeType) :
      Except Options.BindError (Option NativeType) :=
    match factory with
    | none => .ok none
    | some f => (f.create options).map fun a => some (type a)

end Registry

end Cuescript
