import Cuescript.Forest.Compile

/-!
The same nodes under other ids. Main statements: how items are placed does not depend on their ids,
and directives made under other ids are the same items under those ids.
-/
namespace Cuescript

def RequirementNode.relabel (σ : NodeId → NodeId) (n : RequirementNode) : RequirementNode :=
  { n with id := σ n.id }

def ActionStep.relabel (σ : NodeId → NodeId) (s : ActionStep) : ActionStep :=
  { s with id := σ s.id, guards := s.guards.map (·.relabel σ) }

namespace ActionNode

mutual

def relabel (σ : NodeId → NodeId) : ActionNode → ActionNode
  | ⟨step, children⟩ => ⟨step.relabel σ, relabelAll σ children⟩

def relabelAll (σ : NodeId → NodeId) : List ActionNode → List ActionNode
  | [] => []
  | n :: rest => relabel σ n :: relabelAll σ rest

end

theorem relabelAll_eq_map (σ : NodeId → NodeId) (ns : List ActionNode) :
    relabelAll σ ns = ns.map (relabel σ) := by
  induction ns with
  | nil => rfl
  | cons n rest ih => rw [relabelAll, ih, List.map_cons]

end ActionNode

def TriggerNode.relabel (σ : NodeId → NodeId) (n : TriggerNode) : TriggerNode :=
  { n with
    id := σ n.id
    guards := n.guards.map (·.relabel σ)
    actions := n.actions.map (·.relabel σ) }

def ForestNode.relabel (σ : NodeId → NodeId) : ForestNode → ForestNode
  | .action n => .action (n.relabel σ)
  | .trigger n => .trigger (n.relabel σ)
  | .requirement n => .requirement (n.relabel σ)

def Forest.relabel (σ : NodeId → NodeId) (f : Forest) : Forest := ⟨f.nodes.map (·.relabel σ)⟩

def Item.relabel (σ : NodeId → NodeId) : Item → Item
  | .requirement n => .requirement (n.relabel σ)
  | .action s => .action (s.relabel σ)
  | .trigger n => .trigger (n.relabel σ)

def Piece.relabel (σ : NodeId → NodeId) : Piece → Piece
  | .run n => .run (n.relabel σ)
  | .trigger n => .trigger (n.relabel σ)

variable {σ : NodeId → NodeId}

section Placement

theorem Item.step?_relabel (i : Item) : (i.relabel σ).step? = i.step?.map (·.relabel σ) := by
  cases i <;> rfl

theorem Item.requirement?_relabel (i : Item) :
    (i.relabel σ).requirement? = i.requirement?.map (·.relabel σ) := by
  cases i <;> rfl

theorem Item.isAction_relabel (i : Item) : (i.relabel σ).isAction = i.isAction := by
  cases i <;> rfl

theorem Piece.run?_relabel (p : Piece) : (p.relabel σ).run? = p.run?.map (·.relabel σ) := by
  cases p <;> rfl

theorem Piece.isRun_relabel (p : Piece) : (p.relabel σ).isRun = p.isRun := by
  cases p <;> rfl

theorem Piece.isTrigger_relabel (p : Piece) : (p.relabel σ).isTrigger = p.isTrigger := by
  cases p <;> rfl

theorem ActionStep.follower_relabel (s : ActionStep) :
    (s.relabel σ).follower = s.follower.relabel σ := rfl

theorem ActionStep.head_relabel (s : ActionStep) (guards : List RequirementNode)
    (followers : List Item) :
    (s.relabel σ).head (guards.map (·.relabel σ)) (followers.map (·.relabel σ)) =
      (s.head guards followers).relabel σ := by
  have steps : (followers.map (Item.relabel σ)).filterMap Item.step? =
      (followers.filterMap Item.step?).map (ActionStep.relabel σ) := by
    simp only [List.filterMap_map, List.map_filterMap, Function.comp_def, Item.step?_relabel]
  simp only [head, steps, ActionNode.relabel, ActionNode.relabelAll_eq_map, List.map_map,
    Function.comp_def, follower_relabel]
  rfl

namespace Piece

theorem ofItems_relabel (inRun : Bool) (guards : List RequirementNode) (items : List Item) :
    ofItems inRun (guards.map (·.relabel σ)) (items.map (·.relabel σ)) =
      (ofItems inRun guards items).map (·.relabel σ) := by
  induction items generalizing inRun guards with
  | nil => rfl
  | cons i rest ih =>
    cases i with
    | requirement n =>
      have more := ih false (guards ++ [n])
      rw [List.map_append] at more
      exact more
    | trigger n => exact congrArg (_ :: ·) (ih false [])
    | action s =>
      have actions : (rest.map (Item.relabel σ)).takeWhile Item.isAction =
          (rest.takeWhile Item.isAction).map (Item.relabel σ) := by
        simp only [List.takeWhile_map, Function.comp_def, Item.isAction_relabel]
      cases inRun with
      | true => exact ih true guards
      | false =>
        have head := s.head_relabel (σ := σ) guards (rest.takeWhile Item.isAction)
        rw [← actions] at head
        exact List.cons_eq_cons.mpr ⟨congrArg run head, ih true []⟩

theorem runs_relabel (pieces : List Piece) :
    ((pieces.map (·.relabel σ)).takeWhile isRun).filterMap run? =
      ((pieces.takeWhile isRun).filterMap run?).map (·.relabel σ) := by
  simp only [List.takeWhile_map, List.filterMap_map, List.map_filterMap, Function.comp_def,
    isRun_relabel, run?_relabel]

theorem actionsAfter_relabel (pieces : List Piece) :
    actionsAfter (pieces.map (·.relabel σ)) = (actionsAfter pieces).map (·.relabel σ) := by
  simp only [actionsAfter, ← runs_relabel, List.dropWhile_map, Function.comp_def,
    isTrigger_relabel]

theorem triggers_relabel (pieces : List Piece) :
    triggers (pieces.map (·.relabel σ)) = (triggers pieces).map (·.relabel σ) := by
  induction pieces with
  | nil => rfl
  | cons p rest ih =>
    cases p with
    | run n => exact ih
    | trigger n =>
      have first := congrArg (fun actions => ForestNode.trigger { n.relabel σ with actions })
        (actionsAfter_relabel (σ := σ) rest)
      exact List.cons_eq_cons.mpr ⟨first, ih⟩

theorem roots_relabel (pieces : List Piece) :
    roots (pieces.map (·.relabel σ)) = (roots pieces).map (·.relabel σ) := by
  simp only [roots, runs_relabel, triggers_relabel, List.map_append, List.map_map]
  rfl

end Piece

theorem Forest.ofItems_relabel (items : List Item) :
    Forest.ofItems (items.map (·.relabel σ)) = (Forest.ofItems items).relabel σ := by
  have requirements : (items.map (Item.relabel σ)).filterMap Item.requirement? =
      (items.filterMap Item.requirement?).map (RequirementNode.relabel σ) := by
    simp only [List.filterMap_map, List.map_filterMap, Function.comp_def,
      Item.requirement?_relabel]
  have pieces := Piece.ofItems_relabel (σ := σ) false [] items
  rw [List.map_nil] at pieces
  simp only [Forest.ofItems, requirements, List.length_map, pieces, Piece.roots_relabel]
  split
  · simp only [relabel, List.map_map]
    rfl
  · rfl

end Placement

theorem Directive.resolve_relabel (d : Directive) (r : Registry) (id : NodeId) :
    d.resolve r (σ id) = (d.resolve r id).map (·.relabel σ) := by
  unfold resolve
  cases d.kind with
  | action =>
    dsimp only
    cases d.instantiate (r.actions.find? d.identifier) ActionConfig.bind <;> rfl
  | requirement =>
    dsimp only
    cases d.instantiate (r.requirements.find? d.identifier) RequirementConfig.bind <;> rfl
  | trigger =>
    dsimp only
    cases d.instantiate (r.triggers.find? d.identifier) TriggerConfig.bind <;> rfl

end Cuescript
