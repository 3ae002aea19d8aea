import Cuescript.Forest.Outline

/-!
The actions anywhere in a forest, and the guards that stand with them and with the triggers. Lists
of actions have one induction principle, with a hypothesis for the children of the first and one
for the others.
-/
namespace Cuescript

namespace ActionNode

/-- Induction over the actions in a list and everything below them. -/
@[elab_as_elim]
theorem list_induction {motive : List ActionNode → Prop} (nil : motive [])
    (cons : ∀ step children rest, motive children → motive rest →
      motive (⟨step, children⟩ :: rest)) (ns : List ActionNode) : motive ns :=
  match ns with
  | [] => nil
  | ⟨step, children⟩ :: rest =>
    cons step children rest (list_induction nil cons children) (list_induction nil cons rest)

mutual

def members : ActionNode → List ActionNode
  | ⟨step, children⟩ => ⟨step, children⟩ :: membersAll children

def membersAll : List ActionNode → List ActionNode
  | [] => []
  | n :: rest => members n ++ membersAll rest

end

theorem mem_membersAll {m : ActionNode} {ns : List ActionNode} :
    m ∈ membersAll ns ↔ ∃ n ∈ ns, m ∈ n.members := by
  induction ns with
  | nil => simp [membersAll]
  | cons n rest ih => simp [membersAll, ih]

theorem mem_members {m n : ActionNode} : m ∈ n.members ↔ m = n ∨ m ∈ membersAll n.children := by
  cases n
  simp [members]

theorem mem_outlineAll {i : NodeId} {ns : List ActionNode} :
    i ∈ outlineAll ns ↔ ∃ m ∈ membersAll ns, i = m.id ∨ ∃ g ∈ m.step.guards, i = g.id := by
  induction ns using list_induction with
  | nil => simp [outlineAll, membersAll]
  | cons step children rest below behind =>
    simp only [outlineAll, outline, membersAll, members, List.cons_append, List.mem_cons,
      List.mem_append, List.mem_map, below, behind, or_and_right, exists_or, exists_eq_left, id,
      eq_comm, or_assoc]

theorem mem_outline {i : NodeId} {n : ActionNode} :
    i ∈ n.outline ↔ ∃ m ∈ n.members, i = m.id ∨ ∃ g ∈ m.step.guards, i = g.id := by
  have single := @mem_outlineAll i [n]
  simpa only [outlineAll, membersAll, List.append_nil] using single

end ActionNode

namespace ForestNode

def members : ForestNode → List ActionNode
  | .action n => n.members
  | .trigger n => ActionNode.membersAll n.actions
  | .requirement _ => []

theorem mem_outline {i : NodeId} {root : ForestNode} :
    i ∈ root.outline ↔
      (∃ m ∈ root.members, i = m.id ∨ ∃ g ∈ m.step.guards, i = g.id) ∨
        (∃ n, root.trigger? = some n ∧ (i = n.id ∨ ∃ g ∈ n.guards, i = g.id)) ∨
        ∃ n, root.requirement? = some n ∧ i = n.id := by
  cases root with
  | action n => simp [outline, members, trigger?, requirement?, ActionNode.mem_outline]
  | requirement n => simp [outline, members, trigger?, requirement?]
  | trigger n =>
    simp only [outline, TriggerNode.outline, members, trigger?, requirement?, List.cons_append,
      List.mem_cons, List.mem_append, List.mem_map, ActionNode.mem_outlineAll, Option.some.injEq,
      exists_eq_left', reduceCtorEq, false_and, exists_false, or_false, eq_comm (a := i)]
    constructor
    · rintro (h | h | h)
      · exact Or.inr (Or.inl h)
      · exact Or.inr (Or.inr h)
      · exact Or.inl h
    · rintro (h | h | h)
      · exact Or.inr (Or.inr h)
      · exact Or.inl h
      · exact Or.inr (Or.inl h)

end ForestNode

namespace Forest

/-- The actions of a forest. One that several triggers share is listed for each. -/
def members (f : Forest) : List ActionNode := f.nodes.flatMap ForestNode.members

def guarded (f : Forest) : List (NodeId × List RequirementNode) :=
  f.members.map (fun n => (n.id, n.step.guards)) ++ f.triggers.map fun n => (n.id, n.guards)

theorem mem_members {m : ActionNode} {f : Forest} :
    m ∈ f.members ↔
      (∃ n ∈ f.actions, m ∈ n.members) ∨ ∃ n ∈ f.triggers, m ∈ ActionNode.membersAll n.actions := by
  simp only [members, actions, triggers, List.mem_flatMap, List.mem_filterMap]
  constructor
  · rintro ⟨root, hroot, hm⟩
    cases root with
    | action n => exact Or.inl ⟨n, ⟨_, hroot, rfl⟩, hm⟩
    | trigger n => exact Or.inr ⟨n, ⟨_, hroot, rfl⟩, hm⟩
    | requirement n => cases hm
  · rintro (⟨n, ⟨root, hroot, is⟩, hm⟩ | ⟨n, ⟨root, hroot, is⟩, hm⟩)
    · cases root with
      | action n' => cases is; exact ⟨_, hroot, hm⟩
      | trigger n' => cases is
      | requirement n' => cases is
    · cases root with
      | trigger n' => cases is; exact ⟨_, hroot, hm⟩
      | action n' => cases is
      | requirement n' => cases is

theorem mem_outline {i : NodeId} {f : Forest} :
    i ∈ f.outline ↔ ∃ root ∈ f.nodes, i ∈ root.outline := by
  have distinct : ∀ (ids seen : List NodeId),
      i ∈ ids.foldl (fun ids j => if j ∈ ids then ids else ids ++ [j]) seen ↔
        i ∈ seen ∨ i ∈ ids := by
    intro ids
    induction ids with
    | nil => simp
    | cons j rest ih =>
      intro seen
      rw [List.foldl_cons, ih]
      split
      · rename_i known
        constructor
        · exact Or.imp_right (List.mem_cons_of_mem j)
        · rintro (h | h)
          · exact Or.inl h
          · rcases List.mem_cons.mp h with rfl | h
            · exact Or.inl known
            · exact Or.inr h
      · simp [or_assoc]
  rw [outline, distinct]
  simp

theorem not_mem_outline {i : NodeId} {f : Forest}
    (guarded : ∀ e ∈ f.guarded, e.1 ≠ i ∧ ∀ g ∈ e.2, g.id ≠ i)
    (top : ∀ n ∈ f.requirements, n.id ≠ i) : i ∉ f.outline := by
  intro listed
  obtain ⟨root, hroot, inside⟩ := mem_outline.mp listed
  rcases ForestNode.mem_outline.mp inside with ⟨m, hm, is⟩ | ⟨n, hn, is⟩ | ⟨n, hn, is⟩
  · have entry := guarded (m.id, m.step.guards) (List.mem_append_left _
      (List.mem_map.mpr ⟨m, List.mem_flatMap.mpr ⟨root, hroot, hm⟩, rfl⟩))
    rcases is with is | ⟨g, hg, is⟩
    · exact entry.1 is.symm
    · exact entry.2 g hg is.symm
  · have entry := guarded (n.id, n.guards) (List.mem_append_right _
      (List.mem_map.mpr ⟨n, List.mem_filterMap.mpr ⟨root, hroot, hn⟩, rfl⟩))
    rcases is with is | ⟨g, hg, is⟩
    · exact entry.1 is.symm
    · exact entry.2 g hg is.symm
  · exact top n (List.mem_filterMap.mpr ⟨root, hroot, hn⟩) is.symm

end Forest

end Cuescript
