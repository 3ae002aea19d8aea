import Cuescript.Node.Basic

/-!
The nodes of a forest in the order in which a reader meets them: each node, then its guards, then
the actions below it. A node that is shared has its number from where it is met first.
-/
namespace Cuescript

namespace ActionNode

mutual

def outline : ActionNode → List NodeId
  | ⟨step, children⟩ => step.id :: step.guards.map (·.id) ++ outlineAll children

def outlineAll : List ActionNode → List NodeId
  | [] => []
  | n :: rest => outline n ++ outlineAll rest

end

end ActionNode

def TriggerNode.outline (n : TriggerNode) : List NodeId :=
  n.id :: n.guards.map (·.id) ++ ActionNode.outlineAll n.actions

def ForestNode.outline : ForestNode → List NodeId
  | .action n => n.outline
  | .trigger n => n.outline
  | .requirement n => [n.id]

namespace Forest

def outline (f : Forest) : List NodeId :=
  (f.nodes.flatMap ForestNode.outline).foldl (fun ids i => if i ∈ ids then ids else ids ++ [i]) []

def nameOf (f : Forest) (id : NodeId) : String := "n" ++ toString (f.outline.idxOf id)

def named? (f : Forest) (name : String) : Option NodeId :=
  f.outline.find? fun i => f.nameOf i = name

end Forest

end Cuescript
