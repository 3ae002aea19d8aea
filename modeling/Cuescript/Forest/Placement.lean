import Cuescript.Node.Basic

/-!
How the directives of a script become a forest. Kind and order alone decide: requirements guard
the next action or trigger; actions in a row form one node, the first with the others as children;
the actions after a group of triggers belong to every trigger of the group. Requirements after the
last action or trigger guard nothing. A script of requirements only is the list of them.
-/
namespace Cuescript

/-- A directive whose component has been made. The guards are still to come. -/
inductive Item where
  | requirement (n : RequirementNode)
  | action (s : ActionStep)
  | trigger (n : TriggerNode)

namespace Item

def step? : Item → Option ActionStep
  | .action s => some s
  | _ => none

def requirement? : Item → Option RequirementNode
  | .requirement n => some n
  | _ => none

def isAction (i : Item) : Bool := i.step?.isSome

end Item

inductive Piece where
  | run (n : ActionNode)
  | trigger (n : TriggerNode)

namespace Piece

def run? : Piece → Option ActionNode
  | .run n => some n
  | .trigger _ => none

def isRun (p : Piece) : Bool := p.run?.isSome

def isTrigger (p : Piece) : Bool := !p.isRun

end Piece

/-- An action as it stands in a run after the first: no guards, no children. -/
def ActionStep.follower (s : ActionStep) : ActionNode := ⟨{ s with guards := [] }, []⟩

def ActionStep.head (s : ActionStep) (guards : List RequirementNode) (followers : List Item) :
    ActionNode :=
  ⟨{ s with guards := guards }, (followers.filterMap Item.step?).map ActionStep.follower⟩

/-- The runs and triggers of a script in order. `guards` are the requirements since the last of
them. `inRun` says that the item before belongs to a run, which the next action then continues. -/
def Piece.ofItems (inRun : Bool) (guards : List RequirementNode) : List Item → List Piece
  | [] => []
  | .requirement n :: rest => ofItems false (guards ++ [n]) rest
  | .trigger n :: rest => .trigger { n with guards := guards } :: ofItems false [] rest
  | .action s :: rest =>
    if inRun then ofItems true guards rest
    else .run (s.head guards (rest.takeWhile Item.isAction)) :: ofItems true [] rest

/-- The actions that a trigger sets off, from the pieces after it: the runs up to the next
trigger, where triggers that follow directly share them. -/
def Piece.actionsAfter (pieces : List Piece) : List ActionNode :=
  ((pieces.dropWhile Piece.isTrigger).takeWhile Piece.isRun).filterMap Piece.run?

def Piece.triggers : List Piece → List ForestNode
  | [] => []
  | .run _ :: rest => triggers rest
  | .trigger n :: rest => .trigger { n with actions := actionsAfter rest } :: triggers rest

def Piece.roots (pieces : List Piece) : List ForestNode :=
  ((pieces.takeWhile Piece.isRun).filterMap Piece.run?).map .action ++ triggers pieces

def Forest.ofItems (items : List Item) : Forest :=
  let requirements := items.filterMap Item.requirement?
  if requirements.length = items.length then ⟨requirements.map .requirement⟩
  else ⟨Piece.roots (Piece.ofItems false [] items)⟩

end Cuescript
