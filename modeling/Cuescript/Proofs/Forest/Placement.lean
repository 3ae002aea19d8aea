import Cuescript.Catalogue.Conditions
import Cuescript.Proofs.Forest.Nodes
import Cuescript.Proofs.Forest.Resolved

/-!
Where compiled directives stand. The kinds of the directives alone say which actions are roots,
which are children of which, and which triggers set them off; each action becomes one node, however
many triggers share it.
-/
namespace Cuescript

open Shape

/-- The actions and triggers of a script stand in a forest as their positions say. `node k` is the
node of the action at `k`, `trigger u` that of the trigger at `u`. -/
structure Placed (shape : List Kind) (first : Nat) (items : List Item) (f : Forest)
    (node : Nat → ActionNode) (trigger : Nat → TriggerNode) : Prop where
  /-- The first action of a run has the others for children, in order. -/
  head : ∀ h, Head shape h → ∃ s guards ks, items[h]? = some (.action s) ∧
    InOrder (Follows shape h) ks ∧ node h = ⟨{ s with guards := guards }, ks.map node⟩
  /-- The others have neither guards nor children. -/
  follower : ∀ h k, Follows shape h k → ∃ s, items[k]? = some (.action s) ∧
    node k = ⟨{ s with guards := [] }, []⟩
  /-- A trigger sets off the heads in whose group it is, in order. -/
  actions : ∀ u, shape[u]? = some .trigger → ∃ n guards hs, items[u]? = some (.trigger n) ∧
    InOrder (fun h => Head shape h ∧ Group shape u h) hs ∧
    trigger u = { n with guards := guards, actions := hs.map node }
  /-- The roots are the heads before the first trigger and then all triggers. -/
  roots : (∃ kind ∈ shape, kind ≠ .requirement) → ∃ hs us,
    InOrder (fun h => Head shape h ∧ ∀ u < h, shape[u]? ≠ some .trigger) hs ∧
    InOrder (fun u => shape[u]? = some .trigger) us ∧
    f.nodes = hs.map (fun h => .action (node h)) ++ us.map fun u => .trigger (trigger u)
  /-- Without actions and triggers, the roots are the requirements. -/
  requirements : (∀ kind ∈ shape, kind = .requirement) → ∃ ns : List RequirementNode,
    items = ns.map .requirement ∧ f.nodes = ns.map .requirement
  /-- Each action is in the forest as one node, known by its id. -/
  once : ∀ k, shape[k]? = some .action → (node k).id = ⟨first + k⟩ ∧ node k ∈ f.members ∧
    ∀ n ∈ f.members, n.id = ⟨first + k⟩ → n = node k
  /-- There are no other actions in the forest. -/
  only : ∀ n ∈ f.members, ∃ k, shape[k]? = some .action ∧ n = node k

namespace Resolved

variable {r : Registry} {first : Nat} {ds : List Directive} {items : List Item}

theorem id_nodeAt (h : Resolved r first ds items) {k : Nat}
    (action : (Layout.kinds items)[k]? = some .action) :
    (Layout.nodeAt items k).id = ⟨first + k⟩ := by
  rw [ActionNode.id, Layout.guards_nodeAt action]
  exact h.item_id (Layout.step_of_action action)

theorem id_triggerAt (h : Resolved r first ds items) {u : Nat}
    (trigger : (Layout.kinds items)[u]? = some .trigger) :
    (Layout.triggerAt items u).id = ⟨first + u⟩ := by
  obtain ⟨n, here⟩ := Layout.trigger_of_kind trigger
  rw [Layout.triggerAt, here]
  exact h.item_id here

theorem id_requirementAt (h : Resolved r first ds items) {j : Nat}
    (requirement : (Layout.kinds items)[j]? = some .requirement) :
    (Layout.requirementAt items j).id = ⟨first + j⟩ :=
  h.item_id (Layout.requirement_of_kind requirement)

theorem position_unique (h : Resolved r first ds items) {k j : Nat}
    (action : (Layout.kinds items)[k]? = some .action)
    (action' : (Layout.kinds items)[j]? = some .action)
    (same : (Layout.nodeAt items j).id = (Layout.nodeAt items k).id) : j = k := by
  rw [h.id_nodeAt action, h.id_nodeAt action', NodeId.mk.injEq] at same
  omega

theorem placed (h : Resolved r first ds items) :
    Placed (Layout.kinds items) first items (Forest.ofItems items) (Layout.nodeAt items)
      (Layout.triggerAt items) where
  head := by
    intro k head
    obtain ⟨ks, order, node⟩ := Layout.nodeAt_head head
    exact ⟨_, _, ks, Layout.step_of_action head.action, order, node⟩
  follower := by
    intro k j f
    exact ⟨_, Layout.step_of_action f.action, Layout.nodeAt_follower f⟩
  actions := by
    intro u trigger
    obtain ⟨n, here⟩ := Layout.trigger_of_kind trigger
    obtain ⟨hs, order, actions⟩ := Layout.actions_of_trigger trigger
    refine ⟨n, Layout.guardsAt items u, hs, here, order, ?_⟩
    rw [← actions]
    simp [Layout.triggerAt, here]
  roots := Layout.ofItems_roots
  requirements := Layout.ofItems_requirements
  once := by
    intro k action
    have id := h.id_nodeAt action
    refine ⟨id, Layout.mem_members_ofItems.mpr ⟨k, action, rfl⟩, ?_⟩
    intro n hn same
    obtain ⟨j, action', rfl⟩ := Layout.mem_members_ofItems.mp hn
    rw [h.position_unique action action' (same.trans id.symm)]
  only := fun n hn => Layout.mem_members_ofItems.mp hn

end Resolved

/-- A listing whose directives can all be made compiles, and its actions and triggers stand where
the kinds of the directives put them. -/
theorem compile_placed (r : Registry) (listing : Listing) (first : Nat)
    (makes : ∀ d ∈ listing.directives, ∃ id item, d.resolve r id = .ok item) :
    ∃ items f node trigger, Resolved r first listing.directives items ∧
      r.compile listing first = .ok f ∧
      Placed (listing.directives.map (·.kind)) first items f node trigger := by
  obtain ⟨items, resolved⟩ := Registry.exists_resolved first makes
  refine ⟨items, Forest.ofItems items, Layout.nodeAt items, Layout.triggerAt items, resolved,
    Registry.compile_ok_iff.mpr ⟨items, resolved, rfl⟩, ?_⟩
  rw [← resolved.kinds]
  exact resolved.placed

/-- A run in front, two triggers that share a run and a guarded action, and a trigger of its own. -/
def groupedListing : Listing :=
  .ofDirectives
    [⟨.action, "heal", "", "1", 1⟩, ⟨.action, "log", "", "second", 2⟩,
      ⟨.requirement, "health", "", "5", 3⟩, ⟨.trigger, "join", "", "", 4⟩,
      ⟨.trigger, "leave", "", "", 5⟩, ⟨.action, "heal", "", "2", 6⟩,
      ⟨.action, "skip", "", "", 7⟩, ⟨.requirement, "named", "", "steve", 8⟩,
      ⟨.action, "log", "", "third", 9⟩, ⟨.trigger, "join", "", "north", 10⟩,
      ⟨.action, "echo", "", "x", 11⟩]

theorem compile_placed_groupedListing :
    (∀ d ∈ groupedListing.directives, ∃ id item,
      d.resolve Catalogue.registry id = .ok item) ∧
    ∃ items f node trigger, Resolved Catalogue.registry 0 groupedListing.directives items ∧
      Catalogue.registry.compile groupedListing 0 = .ok f ∧
      Placed (groupedListing.directives.map (·.kind)) 0 items f node trigger := by
  have made : ∀ d ∈ groupedListing.directives,
      (d.resolve Catalogue.registry ⟨0⟩).toBool = true := by decide +kernel
  have makes : ∀ d ∈ groupedListing.directives, ∃ id item,
      d.resolve Catalogue.registry id = .ok item := fun d hd => ⟨⟨0⟩, ok_of_toBool (made d hd)⟩
  exact ⟨makes, compile_placed Catalogue.registry groupedListing 0 makes⟩

end Cuescript
