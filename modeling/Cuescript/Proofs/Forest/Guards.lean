import Cuescript.Proofs.Forest.Placement

/-!
Which requirements guard what. A requirement guards the next action or trigger and nothing else; if
there is none, the forest does not hold it, and a script without it has the same forest.
-/
namespace Cuescript

open Shape

structure Guarded (shape : List Kind) (first : Nat) (items : List Item) (f : Forest) : Prop where
  /-- The guards of an action or trigger are the requirements that it adopts, in order. -/
  own : ∀ k kind, shape[k]? = some kind → kind ≠ .requirement →
    ∃ (gs : List RequirementNode) (js : List Nat), InOrder (Adopts shape k) js ∧
      (js.map fun j => items[j]?) = gs.map (fun g => some (.requirement g)) ∧
      ∀ hs, (⟨first + k⟩, hs) ∈ f.guarded ↔ hs = gs
  /-- There are no other guarded nodes. -/
  only : ∀ e ∈ f.guarded, ∃ k kind, shape[k]? = some kind ∧ kind ≠ .requirement ∧
    e.1 = ⟨first + k⟩
  /-- A requirement guards the next action or trigger and no other node. -/
  once : ∀ j, shape[j]? = some .requirement →
    (∃ m kind, j < m ∧ shape[m]? = some kind ∧ kind ≠ .requirement) →
      ∃ k, Adopts shape k j ∧ (∃ e ∈ f.guarded, e.1 = ⟨first + k⟩) ∧
        ∀ e ∈ f.guarded, (∃ g ∈ e.2, g.id = ⟨first + j⟩) ↔ e.1 = ⟨first + k⟩
  /-- Without a requirement directly before it, an action or trigger has no guards. -/
  none : ∀ k, (∀ j, j + 1 = k → shape[j]? ≠ some .requirement) →
    ∀ gs, (⟨first + k⟩, gs) ∈ f.guarded → gs = []
  /-- A requirement with no action or trigger after it is nowhere in the forest. -/
  dropped : ∀ j, shape[j]? = some .requirement →
    (∀ m kind, j < m → shape[m]? = some kind → kind = .requirement) → ⟨first + j⟩ ∉ f.outline

namespace Layout

variable {items : List Item}

theorem guardsAt_adopts {k : Nat} {kind : Kind} (here : (kinds items)[k]? = some kind)
    (other : kind ≠ .requirement) :
    ∃ js, InOrder (Adopts (kinds items) k) js ∧ guardsAt items k = js.map (requirementAt items) := by
  obtain ⟨js, order, guards⟩ := @guardsAt_inOrder items k
  refine ⟨js, order.congr fun j => ?_, guards⟩
  constructor
  · rintro ⟨lt, all⟩
    exact ⟨lt, all, kind, here, other⟩
  · rintro ⟨lt, all, _⟩
    exact ⟨lt, all⟩

theorem requirements_ofItems (other : ∃ kind ∈ kinds items, kind ≠ .requirement) :
    (Forest.ofItems items).requirements = [] := by
  obtain ⟨hs, us, _, _, nodes⟩ := ofItems_roots other
  simp [Forest.requirements, nodes, List.filterMap_map, Function.comp_def, ForestNode.requirement?]

theorem pieces_append {inRun : Bool} {guards : List RequirementNode} {rest ns : List Item}
    (all : ∀ i ∈ ns, i.kind = .requirement) :
    Piece.ofItems inRun guards (rest ++ ns) = Piece.ofItems inRun guards rest := by
  have noAction : ns.takeWhile Item.isAction = [] := by
    cases ns with
    | nil => rfl
    | cons i ns =>
      have kind := all i List.mem_cons_self
      cases i with
      | requirement n => rfl
      | action s => cases kind
      | trigger n => cases kind
  induction rest generalizing inRun guards with
  | nil =>
    clear noAction
    rw [List.nil_append]
    induction ns generalizing inRun guards with
    | nil => rfl
    | cons i ns ih =>
      have kind := all i List.mem_cons_self
      cases i with
      | requirement n => exact ih fun i hi => all i (List.mem_cons_of_mem _ hi)
      | action s => cases kind
      | trigger n => cases kind
  | cons i rest ih =>
    have run : (rest ++ ns).takeWhile Item.isAction = rest.takeWhile Item.isAction := by
      rw [List.takeWhile_append, noAction, List.append_nil]
      split
      · rename_i whole
        exact ((List.takeWhile_prefix _).eq_of_length whole).symm
      · rfl
    cases i with
    | requirement n => exact ih
    | trigger n => exact congrArg (.trigger { n with guards := guards } :: ·) ih
    | action s => simp only [List.cons_append, Piece.ofItems, run, ih]

/-- Requirements at the end of a script that holds more than requirements make no difference. -/
theorem ofItems_append {ns : List Item} (all : ∀ i ∈ ns, i.kind = .requirement)
    (other : ∃ kind ∈ kinds items, kind ≠ .requirement) :
    Forest.ofItems (items ++ ns) = Forest.ofItems items := by
  obtain ⟨kind, member, not⟩ := other
  have mixed : ¬ ∀ kind ∈ kinds items, kind = .requirement := fun all => not (all kind member)
  have mixed' : ¬ ∀ kind ∈ kinds (items ++ ns), kind = .requirement := by
    intro all'
    refine not (all' kind ?_)
    rw [kinds, List.map_append]
    exact List.mem_append_left _ member
  rw [Forest.ofItems, Forest.ofItems, if_neg (by rwa [only_requirements_iff]),
    if_neg (by rwa [only_requirements_iff]), pieces_append all]

end Layout

namespace Resolved

variable {r : Registry} {first : Nat} {ds : List Directive} {items : List Item}

theorem mem_guarded (h : Resolved r first ds items) {e : NodeId × List RequirementNode} :
    e ∈ (Forest.ofItems items).guarded ↔
      ∃ k kind, (Layout.kinds items)[k]? = some kind ∧ kind ≠ .requirement ∧
        e = (⟨first + k⟩, Layout.guardsAt items k) := by
  rw [Forest.guarded, List.mem_append, List.mem_map, List.mem_map]
  constructor
  · rintro (⟨n, hn, rfl⟩ | ⟨n, hn, rfl⟩)
    · obtain ⟨k, action, rfl⟩ := Layout.mem_members_ofItems.mp hn
      refine ⟨k, .action, action, by simp, ?_⟩
      rw [h.id_nodeAt action, Layout.guards_nodeAt action]
    · obtain ⟨u, trigger, rfl⟩ := Layout.mem_triggers_ofItems.mp hn
      refine ⟨u, .trigger, trigger, by simp, ?_⟩
      rw [h.id_triggerAt trigger, Layout.guards_triggerAt trigger]
  · rintro ⟨k, kind, here, other, rfl⟩
    cases kind with
    | requirement => exact absurd rfl other
    | action =>
      refine Or.inl ⟨_, Layout.mem_members_ofItems.mpr ⟨k, here, rfl⟩, ?_⟩
      rw [h.id_nodeAt here, Layout.guards_nodeAt here]
    | trigger =>
      refine Or.inr ⟨_, Layout.mem_triggers_ofItems.mpr ⟨k, here, rfl⟩, ?_⟩
      rw [h.id_triggerAt here, Layout.guards_triggerAt here]

theorem guard_adopted (h : Resolved r first ds items) {k j : Nat} {kind : Kind}
    (here : (Layout.kinds items)[k]? = some kind) (other : kind ≠ .requirement) :
    (∃ g ∈ Layout.guardsAt items k, g.id = ⟨first + j⟩) ↔ Adopts (Layout.kinds items) k j := by
  obtain ⟨js, order, guards⟩ := Layout.guardsAt_adopts here other
  rw [guards]
  constructor
  · rintro ⟨g, hg, same⟩
    obtain ⟨i, hi, rfl⟩ := List.mem_map.mp hg
    have adopts := (order.mem i).mp hi
    rw [h.id_requirementAt (adopts.2.1 i (Nat.le_refl i) adopts.1), NodeId.mk.injEq] at same
    rwa [show j = i by omega]
  · intro adopts
    exact ⟨_, List.mem_map_of_mem ((order.mem j).mpr adopts),
      h.id_requirementAt (adopts.2.1 j (Nat.le_refl j) adopts.1)⟩

theorem isGuarded (h : Resolved r first ds items)
    (other : ∃ kind ∈ Layout.kinds items, kind ≠ .requirement) :
    Guarded (Layout.kinds items) first items (Forest.ofItems items) where
  own := by
    intro k kind here not
    obtain ⟨js, order, guards⟩ := Layout.guardsAt_adopts here not
    refine ⟨Layout.guardsAt items k, js, order, ?_, fun hs => ?_⟩
    · rw [guards, List.map_map]
      apply List.map_congr_left
      intro j hj
      have adopts := (order.mem j).mp hj
      exact Layout.requirement_of_kind (adopts.2.1 j (Nat.le_refl j) adopts.1)
    · rw [h.mem_guarded]
      constructor
      · rintro ⟨m, _, _, _, same⟩
        simp only [Prod.mk.injEq, NodeId.mk.injEq] at same
        rw [same.2, show m = k by omega]
      · rintro rfl
        exact ⟨k, kind, here, not, rfl⟩
  only := by
    intro e he
    obtain ⟨k, kind, here, not, rfl⟩ := h.mem_guarded.mp he
    exact ⟨k, kind, here, not, rfl⟩
  once := by
    rintro j requirement ⟨_, _, later, here, not⟩
    obtain ⟨k, adopts⟩ := exists_adopts requirement later here not
    obtain ⟨_, _, kind, here, not⟩ := id adopts
    refine ⟨k, adopts, ⟨_, h.mem_guarded.mpr ⟨k, kind, here, not, rfl⟩, rfl⟩, fun e he => ?_⟩
    obtain ⟨m, kind', here', not', rfl⟩ := h.mem_guarded.mp he
    rw [h.guard_adopted here' not']
    constructor
    · intro adopts'
      rw [adopts'.unique adopts]
    · intro same
      rw [NodeId.mk.injEq] at same
      rwa [show m = k by omega]
  none := by
    intro k noneBefore gs entry
    obtain ⟨m, _, _, _, same⟩ := h.mem_guarded.mp entry
    simp only [Prod.mk.injEq, NodeId.mk.injEq] at same
    rw [same.2, show m = k by omega]
    cases k with
    | zero => rfl
    | succ k => exact Layout.guardsAt_other (noneBefore k rfl)
  dropped := by
    intro j requirement last
    refine Forest.not_mem_outline (fun e he => ?_) (fun n hn => ?_)
    · obtain ⟨k, kind, here, not, rfl⟩ := h.mem_guarded.mp he
      refine ⟨fun same => ?_, fun g hg same => ?_⟩
      · rw [NodeId.mk.injEq] at same
        rw [show k = j by omega, requirement] at here
        exact not (Option.some.inj here).symm
      · have adopts := (h.guard_adopted here not).mp ⟨g, hg, same⟩
        exact not (last k kind adopts.1 here)
    · rw [Layout.requirements_ofItems other] at hn
      cases hn

end Resolved

/-- In the forest of a listing that holds an action or a trigger, each requirement guards the next
of them. Requirements with none after them can be left out without changing the forest. -/
theorem compile_guarded (r : Registry) (listing : Listing) (first : Nat) (f : Forest)
    (compiles : r.compile listing first = .ok f)
    (other : ∃ d ∈ listing.directives, d.kind ≠ .requirement) :
    ∃ items, Resolved r first listing.directives items ∧
      Guarded (listing.directives.map (·.kind)) first items f ∧
      ∀ kept trailing total, listing.directives = kept ++ trailing →
        (∀ d ∈ trailing, d.kind = .requirement) → r.compile ⟨kept, total⟩ first = .ok f := by
  obtain ⟨items, resolved, rfl⟩ := Registry.compile_ok_iff.mp compiles
  have mixed : ∃ kind ∈ Layout.kinds items, kind ≠ .requirement := by
    rw [resolved.kinds]
    obtain ⟨d, hd, not⟩ := other
    exact ⟨d.kind, List.mem_map_of_mem hd, not⟩
  refine ⟨items, resolved, resolved.kinds ▸ resolved.isGuarded mixed, ?_⟩
  intro kept trailing total split all
  rw [split] at resolved
  obtain ⟨front, behind⟩ := resolved.append
  have requirements : ∀ i ∈ items.drop kept.length, i.kind = .requirement := by
    intro i hi
    have member : i.kind ∈ Layout.kinds (items.drop kept.length) := List.mem_map_of_mem hi
    rw [behind] at member
    obtain ⟨d, hd, same⟩ := List.mem_map.mp member
    rw [← same, all d hd]
  have mixed' : ∃ kind ∈ Layout.kinds (items.take kept.length), kind ≠ .requirement := by
    obtain ⟨d, hd, not⟩ := other
    rw [front.kinds]
    rw [split, List.mem_append] at hd
    rcases hd with hd | hd
    · exact ⟨d.kind, List.mem_map_of_mem hd, not⟩
    · exact absurd (all d hd) not
  refine Registry.compile_ok_iff.mpr ⟨items.take kept.length, front, ?_⟩
  rw [← Layout.ofItems_append requirements mixed', List.take_append_drop]

theorem compile_guarded_groupedListing :
    ∃ f, Catalogue.registry.compile groupedListing 0 = .ok f ∧
      (∃ d ∈ groupedListing.directives, d.kind ≠ .requirement) ∧
      ∃ items, Resolved Catalogue.registry 0 groupedListing.directives items ∧
        Guarded (groupedListing.directives.map (·.kind)) 0 items f ∧
        ∀ kept trailing total, groupedListing.directives = kept ++ trailing →
          (∀ d ∈ trailing, d.kind = .requirement) →
            Catalogue.registry.compile ⟨kept, total⟩ 0 = .ok f := by
  have compiles : (Catalogue.registry.compile groupedListing 0).toBool = true := by decide +kernel
  obtain ⟨f, compiles⟩ := ok_of_toBool compiles
  have other : ∃ d ∈ groupedListing.directives, d.kind ≠ .requirement := by decide
  exact ⟨f, compiles, other, compile_guarded Catalogue.registry groupedListing 0 f compiles other⟩

end Cuescript
