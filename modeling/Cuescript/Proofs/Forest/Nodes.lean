import Cuescript.Proofs.Forest.Layout
import Cuescript.Proofs.Forest.Members

/-!
The forest of a script by position: what the nodes of heads, followers and triggers hold, which
nodes are roots, and that the actions in the forest are the nodes of the actions of the script.
-/
namespace Cuescript.Layout

open Shape

variable {items : List Item}

theorem nodeAt_head {h : Nat} (head : Head (kinds items) h) :
    ∃ ks, InOrder (Follows (kinds items) h) ks ∧
      nodeAt items h = ⟨{ stepAt items h with guards := guardsAt items h }, ks.map (nodeAt items)⟩ := by
  obtain ⟨ks, order, steps⟩ := @actions_inOrder items (h + 1)
  have follows : InOrder (Follows (kinds items) h) ks := by
    apply order.congr
    intro k
    constructor
    · rintro ⟨later, all⟩
      refine ⟨head, later, fun j lo hi => ?_⟩
      rcases Nat.lt_or_eq_of_le lo with lt | rfl
      · exact all j lt hi
      · exact head.action
    · rintro ⟨_, later, all⟩
      exact ⟨later, fun i lo hi => all i (Nat.le_of_lt lo) hi⟩
  refine ⟨ks, follows, ?_⟩
  rw [nodeAt, (head_iff.mp head).2]
  simp only [Bool.false_eq_true, if_false, ActionStep.head, steps, List.map_map]
  congr 1
  apply List.map_congr_left
  intro k hk
  have f := (follows.mem k).mp hk
  have run : inRun items k = true :=
    inRun_iff.mpr ⟨k - 1, by have := f.2.1; omega, f.2.2 _ (by have := f.2.1; omega) (by omega)⟩
  simp [nodeAt, run]

theorem nodeAt_follower {h k : Nat} (f : Follows (kinds items) h k) :
    nodeAt items k = ⟨{ stepAt items k with guards := [] }, []⟩ := by
  have run : inRun items k = true := by
    by_contra first
    exact f.not_head (head_iff.mpr ⟨f.action, Bool.eq_false_iff.mpr first⟩)
  simp [nodeAt, run, ActionStep.follower]

theorem guards_nodeAt {k : Nat} (action : (kinds items)[k]? = some .action) :
    (nodeAt items k).step = { stepAt items k with guards := guardsAt items k } := by
  rcases head_or_follows action with head | ⟨h, f⟩
  · obtain ⟨ks, _, node⟩ := nodeAt_head head
    rw [node]
  · have before := f.2.1
    have none : guardsAt items k = [] :=
      guardsAt_inRun (inRun_iff.mpr ⟨k - 1, by omega, f.2.2 _ (by omega) (by omega)⟩)
    rw [nodeAt_follower f, none]

theorem children_of_follower {h k : Nat} (f : Follows (kinds items) h k) :
    (nodeAt items k).children = [] := by
  rw [nodeAt_follower f]

theorem mem_members_head {h : Nat} (head : Head (kinds items) h) {m : ActionNode} :
    m ∈ (nodeAt items h).members ↔
      m = nodeAt items h ∨ ∃ k, Follows (kinds items) h k ∧ m = nodeAt items k := by
  obtain ⟨ks, order, node⟩ := nodeAt_head head
  rw [ActionNode.mem_members, ActionNode.mem_membersAll]
  refine or_congr Iff.rfl ?_
  rw [node]
  simp only [List.mem_map]
  constructor
  · rintro ⟨_, ⟨k, hk, rfl⟩, hm⟩
    have f := (order.mem k).mp hk
    rw [ActionNode.mem_members, children_of_follower f] at hm
    rcases hm with rfl | hm
    · exact ⟨k, f, rfl⟩
    · simp [ActionNode.membersAll] at hm
  · rintro ⟨k, f, rfl⟩
    exact ⟨_, ⟨k, (order.mem k).mpr f, rfl⟩, ActionNode.mem_members.mpr (Or.inl rfl)⟩

theorem only_requirements_iff :
    (items.filterMap Item.requirement?).length = items.length ↔
      ∀ kind ∈ kinds items, kind = .requirement := by
  rw [List.filterMap_length_eq_length]
  simp only [kinds, List.mem_map, forall_exists_index, and_imp, forall_apply_eq_imp_iff₂]
  refine forall₂_congr fun i _ => ?_
  cases i <;> simp [Item.requirement?, Item.kind]

theorem ofItems_requirements (all : ∀ kind ∈ kinds items, kind = .requirement) :
    ∃ ns : List RequirementNode, items = ns.map Item.requirement ∧
      (Forest.ofItems items).nodes = ns.map ForestNode.requirement := by
  refine ⟨items.filterMap Item.requirement?, ?_, ?_⟩
  · have kept : ∀ i ∈ items, i.requirement?.map Item.requirement = some i := by
      intro i hi
      have kind := all i.kind (List.mem_map_of_mem hi)
      cases i with
      | requirement n => rfl
      | action s => cases kind
      | trigger n => cases kind
    rw [List.map_filterMap, List.filterMap_congr kept, List.filterMap_some]
  · rw [Forest.ofItems, if_pos (only_requirements_iff.mpr all)]

theorem ofItems_roots (other : ∃ kind ∈ kinds items, kind ≠ .requirement) :
    ∃ hs us, InOrder (fun h => Head (kinds items) h ∧
          ∀ u < h, (kinds items)[u]? ≠ some .trigger) hs ∧
      InOrder (fun u => (kinds items)[u]? = some .trigger) us ∧
      (Forest.ofItems items).nodes =
        hs.map (fun h => .action (nodeAt items h)) ++
          us.map fun u => .trigger (triggerAt items u) := by
  obtain ⟨hs, heads, runs⟩ := @roots_inOrder items
  obtain ⟨us, triggers, nodes⟩ := @triggers_inOrder items 0
  refine ⟨hs, us, heads, triggers.congr fun u => by simp, ?_⟩
  have mixed : ¬ (items.filterMap Item.requirement?).length = items.length := by
    rw [only_requirements_iff]
    obtain ⟨kind, member, not⟩ := other
    exact fun all => not (all kind member)
  rw [Forest.ofItems, if_neg mixed]
  simp only [Piece.roots, runs, List.map_map]
  exact congrArg _ nodes

theorem ofItems_top :
    ∃ hs us, InOrder (fun h => Head (kinds items) h ∧
          ∀ u < h, (kinds items)[u]? ≠ some .trigger) hs ∧
      InOrder (fun u => (kinds items)[u]? = some .trigger) us ∧
      (Forest.ofItems items).actions = hs.map (nodeAt items) ∧
      (Forest.ofItems items).triggers = us.map (triggerAt items) := by
  by_cases all : ∀ kind ∈ kinds items, kind = .requirement
  · obtain ⟨ns, _, nodes⟩ := ofItems_requirements all
    have none : ∀ (k : Nat) (kind : Kind), kind ≠ .requirement → (kinds items)[k]? ≠ some kind :=
      fun k kind not here => not (all kind (List.mem_of_getElem? here))
    refine ⟨[], [], InOrder.nil fun h top => none h .action (by simp) top.1.action,
      InOrder.nil fun u => none u .trigger (by simp), ?_, ?_⟩
    · simp [Forest.actions, nodes, List.filterMap_map, Function.comp_def, ForestNode.action?]
    · simp [Forest.triggers, nodes, List.filterMap_map, Function.comp_def, ForestNode.trigger?]
  · push Not at all
    obtain ⟨hs, us, heads, triggers, nodes⟩ := ofItems_roots all
    refine ⟨hs, us, heads, triggers, ?_, ?_⟩
    · simp [Forest.actions, nodes, List.filterMap_map, Function.comp_def, ForestNode.action?]
    · simp [Forest.triggers, nodes, List.filterMap_map, Function.comp_def, ForestNode.trigger?]

theorem mem_triggers_ofItems {n : TriggerNode} :
    n ∈ (Forest.ofItems items).triggers ↔
      ∃ u, (kinds items)[u]? = some .trigger ∧ n = triggerAt items u := by
  obtain ⟨hs, us, _, order, _, triggers⟩ := @ofItems_top items
  rw [triggers, List.mem_map]
  simp only [order.mem, eq_comm]

theorem mem_members_trigger {u : Nat} (trigger : (kinds items)[u]? = some .trigger)
    {m : ActionNode} :
    m ∈ ActionNode.membersAll (triggerAt items u).actions ↔
      ∃ k, (kinds items)[k]? = some .action ∧ Group (kinds items) u k ∧ m = nodeAt items k := by
  obtain ⟨hs, order, actions⟩ := actions_of_trigger trigger
  rw [ActionNode.mem_membersAll, actions]
  simp only [List.mem_map]
  constructor
  · rintro ⟨_, ⟨h, hh, rfl⟩, hm⟩
    obtain ⟨head, group⟩ := (order.mem h).mp hh
    rcases (mem_members_head head).mp hm with rfl | ⟨k, f, rfl⟩
    · exact ⟨h, head.action, group, rfl⟩
    · exact ⟨k, f.action, f.group.mpr group, rfl⟩
  · rintro ⟨k, action, group, rfl⟩
    rcases head_or_follows action with head | ⟨h, f⟩
    · exact ⟨_, ⟨k, (order.mem k).mpr ⟨head, group⟩, rfl⟩, (mem_members_head head).mpr (Or.inl rfl)⟩
    · exact ⟨_, ⟨h, (order.mem h).mpr ⟨f.1, f.group.mp group⟩, rfl⟩,
        (mem_members_head f.1).mpr (Or.inr ⟨k, f, rfl⟩)⟩

theorem mem_members_ofItems {m : ActionNode} :
    m ∈ (Forest.ofItems items).members ↔
      ∃ k, (kinds items)[k]? = some .action ∧ m = nodeAt items k := by
  obtain ⟨hs, us, heads, triggers, actions, nodes⟩ := @ofItems_top items
  rw [Forest.mem_members, actions, nodes]
  simp only [List.mem_map]
  constructor
  · rintro (⟨_, ⟨h, hh, rfl⟩, hm⟩ | ⟨_, ⟨u, hu, rfl⟩, hm⟩)
    · have head := ((heads.mem h).mp hh).1
      rcases (mem_members_head head).mp hm with rfl | ⟨k, f, rfl⟩
      · exact ⟨h, head.action, rfl⟩
      · exact ⟨k, f.action, rfl⟩
    · obtain ⟨k, action, _, same⟩ := (mem_members_trigger ((triggers.mem u).mp hu)).mp hm
      exact ⟨k, action, same⟩
  · rintro ⟨k, action, rfl⟩
    obtain ⟨h, head, le, run⟩ := run_of_action action
    by_cases first : ∀ u < h, (kinds items)[u]? ≠ some .trigger
    · refine Or.inl ⟨_, ⟨h, (heads.mem h).mpr ⟨head, first⟩, rfl⟩, (mem_members_head head).mpr ?_⟩
      rcases Nat.lt_or_eq_of_le le with lt | rfl
      · exact Or.inr ⟨k, ⟨head, lt, run⟩, rfl⟩
      · exact Or.inl rfl
    · push Not at first
      obtain ⟨u, before, trigger⟩ := first
      obtain ⟨l, last, _⟩ := lastTrigger_of_trigger (Nat.lt_of_lt_of_le before le) trigger
      refine Or.inr ⟨_, ⟨l, (triggers.mem l).mpr last.2.1, rfl⟩,
        (mem_members_trigger last.2.1).mpr ⟨k, action, ?_, rfl⟩⟩
      exact ⟨last.2.1, l, last, Nat.le_refl l, fun j lo hi => by omega⟩

theorem guards_triggerAt {u : Nat} (trigger : (kinds items)[u]? = some .trigger) :
    (triggerAt items u).guards = guardsAt items u := by
  obtain ⟨n, here⟩ := trigger_of_kind trigger
  simp [triggerAt, here]

end Cuescript.Layout
