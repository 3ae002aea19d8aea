import Cuescript.Component.Registry
import Cuescript.Directive.Listing
import Cuescript.Forest.Placement

/-!
Scripts compiled to forests. Each directive is resolved against the registry and both of its
option texts are bound; the first directive for which that fails is reported. Then the nodes are
placed.
-/
namespace Cuescript

/-- The node config and the component of a directive. The identifier is looked up first, then the
node options are bound, then the options of the component. -/
def Directive.instantiate {γ α : Type} (d : Directive) (factory : Option (Factory α))
    (bindConfig : String → Except Options.BindError γ) : Except CompileCause (γ × α) :=
  match factory with
  | none => .error (.unknownIdentifier d.kind d.identifier)
  | some f =>
    match bindConfig d.nodeOptions with
    | .error e => .error (.bind e)
    | .ok config =>
      match f.create d.options with
      | .error e => .error (.bind e)
      | .ok component => .ok (config, component)

def Directive.resolve (d : Directive) (r : Registry) (id : NodeId) : Except CompileCause Item :=
  match d.kind with
  | .action =>
    (d.instantiate (r.actions.find? d.identifier) ActionConfig.bind).map fun (config, action) =>
      .action ⟨id, d.identifier, config, action, []⟩
  | .requirement =>
    (d.instantiate (r.requirements.find? d.identifier) RequirementConfig.bind).map
      fun (config, requirement) => .requirement ⟨id, d.identifier, config, requirement⟩
  | .trigger =>
    let factory := r.triggers.find? d.identifier
    let aliases := (factory.map (·.info.names)).getD []
    (d.instantiate factory TriggerConfig.bind).map fun (config, trigger) =>
      .trigger ⟨id, d.identifier, aliases, config, trigger, [], []⟩

def Registry.resolveAll (r : Registry) (total next : Nat) :
    List Directive → Except CompileError (List Item)
  | [] => .ok []
  | d :: rest =>
    match d.resolve r ⟨next⟩ with
    | .error cause => .error ⟨cause, d.line, total⟩
    | .ok item =>
      match r.resolveAll total (next + 1) rest with
      | .error e => .error e
      | .ok items => .ok (item :: items)

/-- The forest of a listing. Its nodes have the ids from `first` on, one for each directive. -/
def Registry.compile (r : Registry) (listing : Listing) (first : Nat) :
    Except CompileError Forest :=
  (r.resolveAll listing.totalLines first listing.directives).map Forest.ofItems

def Registry.compileLines (r : Registry) (forms : List LineForm) (lines : List String)
    (first : Nat) : Except CompileError Forest :=
  match Listing.read forms lines with
  | .error e => .error e
  | .ok listing => r.compile listing first

end Cuescript
