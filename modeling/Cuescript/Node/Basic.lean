import Cuescript.Component.Basic
import Cuescript.Node.Config
import Cuescript.Text.Lowercase

/-!
The nodes that compiled scripts are made of. Nodes never change; what is remembered about them is
kept elsewhere under their ids.
-/
namespace Cuescript

structure NodeId where
  number : Nat
  deriving DecidableEq, Inhabited

structure RequirementNode where
  id : NodeId
  identifier : String
  config : RequirementConfig
  requirement : Requirement
  deriving Inhabited

structure ActionStep where
  id : NodeId
  identifier : String
  config : ActionConfig
  action : Action
  guards : List RequirementNode
  deriving Inhabited

/-- An action and the actions that follow once it has not failed. -/
structure ActionNode where
  step : ActionStep
  children : List ActionNode
  deriving Inhabited

structure TriggerNode where
  id : NodeId
  identifier : String
  aliases : List String
  config : TriggerConfig
  trigger : Trigger
  guards : List RequirementNode
  actions : List ActionNode
  deriving Inhabited

namespace ActionNode

def id (n : ActionNode) : NodeId := n.step.id
def identifier (n : ActionNode) : String := n.step.identifier

mutual

def weight : ActionNode → Nat
  | ⟨_, children⟩ => weightAll children + 1

def weightAll : List ActionNode → Nat
  | [] => 0
  | n :: rest => weight n + weightAll rest

end

end ActionNode

def TriggerNode.answersTo (n : TriggerNode) (identifier : String) : Bool :=
  Text.eqIgnoringAsciiCase n.identifier identifier
    || n.aliases.any fun a => Text.eqIgnoringAsciiCase a identifier

inductive ForestNode where
  | action (n : ActionNode)
  | trigger (n : TriggerNode)
  | requirement (n : RequirementNode)

namespace ForestNode

def id : ForestNode → NodeId
  | .action n => n.id
  | .trigger n => n.id
  | .requirement n => n.id

def identifier : ForestNode → String
  | .action n => n.identifier
  | .trigger n => n.identifier
  | .requirement n => n.identifier

def action? : ForestNode → Option ActionNode
  | .action n => some n
  | _ => none

def trigger? : ForestNode → Option TriggerNode
  | .trigger n => some n
  | _ => none

def requirement? : ForestNode → Option RequirementNode
  | .requirement n => some n
  | _ => none

end ForestNode

/-- A compiled script: actions and triggers, or requirements only. -/
structure Forest where
  nodes : List ForestNode

namespace Forest

def size (f : Forest) : Nat := f.nodes.length

def actions (f : Forest) : List ActionNode := f.nodes.filterMap ForestNode.action?

def triggers (f : Forest) : List TriggerNode := f.nodes.filterMap ForestNode.trigger?

def requirements (f : Forest) : List RequirementNode := f.nodes.filterMap ForestNode.requirement?

def triggersFor (f : Forest) (identifier : String) : List TriggerNode :=
  f.triggers.filter (·.answersTo identifier)

def isFilter (f : Forest) : Bool :=
  !f.nodes.isEmpty && f.nodes.all fun n => n.requirement?.isSome

end Forest

end Cuescript
