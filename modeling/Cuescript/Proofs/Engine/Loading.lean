import Cuescript.Engine.Basic
import Cuescript.Proofs.Directive.Listing
import Cuescript.Proofs.Forest.Guards

/-!
The node ids of loaded scripts. Each line of a script takes up one id, and no id is taken up twice
by an engine; a script that replaces another has ids of its own. Main statements: no two scripts of
an engine have a node id in common, and no two triggers of a script have a guard in common.
-/
namespace Cuescript

/-- The id is that of an action or a trigger of the forest, or of a guard of one. -/
def Forest.Uses (f : Forest) (i : NodeId) : Prop :=
  ∃ e ∈ f.guarded, i = e.1 ∨ ∃ g ∈ e.2, i = g.id

theorem Forest.uses_of_guarded {f : Forest} {e : NodeId × List RequirementNode}
    (guarded : e ∈ f.guarded) : f.Uses e.1 ∧ ∀ g ∈ e.2, f.Uses g.id :=
  ⟨⟨e, guarded, .inl rfl⟩, fun g member => ⟨e, guarded, .inr ⟨g, member, rfl⟩⟩⟩

theorem Forest.listed_of_uses {f : Forest} {i : NodeId} (uses : f.Uses i) : i ∈ f.outline := by
  obtain ⟨e, guarded, is⟩ := uses
  rw [mem_outline]
  rcases List.mem_append.mp guarded with member | member
  · obtain ⟨m, action, rfl⟩ := List.mem_map.mp member
    obtain ⟨root, here, below⟩ := List.mem_flatMap.mp action
    exact ⟨root, here, ForestNode.mem_outline.mpr (.inl ⟨m, below, is⟩)⟩
  · obtain ⟨n, trigger, rfl⟩ := List.mem_map.mp member
    obtain ⟨root, here, own⟩ := List.mem_filterMap.mp trigger
    exact ⟨root, here, ForestNode.mem_outline.mpr (.inr (.inl ⟨n, own, is⟩))⟩

/-- Ids that a forest has but does not use are those of the requirements at its top. -/
theorem Forest.uses_or_top {f : Forest} {i : NodeId} (listed : i ∈ f.outline) :
    f.Uses i ∨ ∃ n ∈ f.requirements, n.id = i := by
  by_contra other
  rw [not_or] at other
  refine not_mem_outline (fun e guarded => ⟨fun is => ?_, fun g guard is => ?_⟩)
    (fun n top is => other.2 ⟨n, top, is⟩) listed
  · exact other.1 ⟨e, guarded, .inl is.symm⟩
  · exact other.1 ⟨e, guarded, .inr ⟨g, guard, is.symm⟩⟩

def Forest.TriggersApart (f : Forest) : Prop :=
  f.triggers.Pairwise fun n n' => ∀ g ∈ n.guards, ∀ g' ∈ n'.guards, g.id ≠ g'.id

theorem Layout.item_of_top {items : List Item} {n : RequirementNode}
    (top : n ∈ (Forest.ofItems items).requirements) : .requirement n ∈ items := by
  by_cases all : ∀ kind ∈ kinds items, kind = .requirement
  · obtain ⟨ns, is, nodes⟩ := ofItems_requirements all
    rw [is]
    simpa [Forest.requirements, nodes, List.filterMap_map, Function.comp_def,
      ForestNode.requirement?] using top
  · push Not at all
    rw [requirements_ofItems all] at top
    cases top

namespace Resolved

variable {r : Registry} {first : Nat} {ds : List Directive} {items : List Item}

theorem position_lt (h : Resolved r first ds items) {k : Nat} {kind : Kind}
    (here : (Layout.kinds items)[k]? = some kind) : k < ds.length := by
  rw [h.kinds, List.getElem?_map] at here
  obtain ⟨d, inside, _⟩ := Option.map_eq_some_iff.mp here
  exact (List.getElem?_eq_some_iff.mp inside).1

theorem guard_at (h : Resolved r first ds items) {k : Nat} {kind : Kind}
    (here : (Layout.kinds items)[k]? = some kind) (other : kind ≠ .requirement)
    {g : RequirementNode} (guard : g ∈ Layout.guardsAt items k) :
    ∃ j, Shape.Adopts (Layout.kinds items) k j ∧ g.id = ⟨first + j⟩ := by
  obtain ⟨js, order, guards⟩ := Layout.guardsAt_adopts here other
  rw [guards] at guard
  obtain ⟨j, adopted, rfl⟩ := List.mem_map.mp guard
  have adopts := (order.mem j).mp adopted
  exact ⟨j, adopts, h.id_requirementAt (adopts.2.1 j (Nat.le_refl j) adopts.1)⟩

theorem triggersApart (h : Resolved r first ds items) :
    (Forest.ofItems items).TriggersApart := by
  obtain ⟨hs, us, _, order, _, triggers⟩ := @Layout.ofItems_top items
  rw [Forest.TriggersApart, triggers, List.pairwise_map]
  refine order.ascending.imp_of_mem fun {u u'} here there less g guard g' guard' same => ?_
  have trigger := (order.mem u).mp here
  have trigger' := (order.mem u').mp there
  rw [Layout.guards_triggerAt trigger] at guard
  rw [Layout.guards_triggerAt trigger'] at guard'
  obtain ⟨j, adopts, is⟩ := h.guard_at trigger nofun guard
  obtain ⟨j', adopts', is'⟩ := h.guard_at trigger' nofun guard'
  rw [is, is', NodeId.mk.injEq, Nat.add_left_cancel_iff] at same
  subst same
  exact Nat.ne_of_lt less (adopts.unique adopts')

theorem uses_between (h : Resolved r first ds items) {i : NodeId}
    (uses : (Forest.ofItems items).Uses i) :
    first ≤ i.number ∧ i.number < first + ds.length := by
  obtain ⟨e, guarded, is⟩ := uses
  obtain ⟨k, kind, here, other, rfl⟩ := h.mem_guarded.mp guarded
  have inside := h.position_lt here
  rcases is with rfl | ⟨g, member, rfl⟩
  · exact ⟨Nat.le_add_right .., Nat.add_lt_add_left inside first⟩
  · obtain ⟨j, adopts, is⟩ := h.guard_at here other member
    rw [is]
    exact ⟨Nat.le_add_right .., Nat.add_lt_add_left (Nat.lt_trans adopts.1 inside) first⟩

theorem outline_between (h : Resolved r first ds items) {i : NodeId}
    (listed : i ∈ (Forest.ofItems items).outline) :
    first ≤ i.number ∧ i.number < first + ds.length := by
  rcases Forest.uses_or_top listed with uses | ⟨n, top, rfl⟩
  · exact h.uses_between uses
  · obtain ⟨k, inside, is⟩ := List.mem_iff_getElem.mp (Layout.item_of_top top)
    have id : n.id = ⟨first + k⟩ := h.item_id ((List.getElem?_eq_getElem inside).trans
      (congrArg some is))
    rw [id]
    exact ⟨Nat.le_add_right .., Nat.add_lt_add_left (h.length ▸ inside) first⟩

end Resolved

theorem Listing.length_le_of_readFrom {forms : List LineForm} {total index : Nat}
    {lines : List String} {ds : List Directive}
    (read : readFrom forms total index lines = .ok ds) : ds.length ≤ lines.length := by
  induction lines generalizing index ds with
  | nil =>
    cases read
    exact Nat.le_refl 0
  | cons line rest ih =>
    rw [readFrom] at read
    split at read
    · cases read
    · rename_i d _
      split at read
      · cases read
      · rename_i tail is
        cases read
        have fewer := ih is
        cases d <;> simp only [Option.toList, List.length_append, List.length_cons, List.length_nil]
          <;> omega

namespace Registry

theorem resolved_of_compileLines {r : Registry} {forms : List LineForm} {lines : List String}
    {first : Nat} {f : Forest} (compiles : r.compileLines forms lines first = .ok f) :
    ∃ ds items, ds.length ≤ lines.length ∧ Resolved r first ds items ∧
      f = Forest.ofItems items := by
  rw [compileLines] at compiles
  split at compiles
  · cases compiles
  · rename_i listing read
    obtain ⟨ds, taken, rfl⟩ := map_ok read
    obtain ⟨items, resolved, rfl⟩ := compile_ok_iff.mp compiles
    exact ⟨ds, items, Listing.length_le_of_readFrom taken, resolved, rfl⟩

theorem outline_of_compileLines {r : Registry} {forms : List LineForm} {lines : List String}
    {first : Nat} {f : Forest} (compiles : r.compileLines forms lines first = .ok f) {i : NodeId}
    (listed : i ∈ f.outline) : first ≤ i.number ∧ i.number < first + lines.length := by
  obtain ⟨ds, items, fewer, resolved, rfl⟩ := resolved_of_compileLines compiles
  have between := resolved.outline_between listed
  omega

end Registry

/-- No two scripts of a table have a node id in common, all ids are below `next`, and no two
triggers of a script have a guard in common. -/
structure Apart (scripts : Table String Script) (next : Nat) : Prop where
  triggers : ∀ k s, scripts.get? k = some s → s.forest.TriggersApart
  below : ∀ k s, scripts.get? k = some s → ∀ i ∈ s.forest.outline, i.number < next
  apart : ∀ k s k' s', scripts.get? k = some s → scripts.get? k' = some s' →
    ∀ i ∈ s.forest.outline, i ∈ s'.forest.outline → k = k'

namespace Apart

variable {scripts : Table String Script} {next : Nat}

theorem empty (next : Nat) : Apart Table.empty next := ⟨nofun, nofun, nofun⟩

theorem keep (h : Apart scripts next) (p : String × Script → Bool) :
    Apart (scripts.keep p) next := by
  have old {k : String} {s : Script} (found : (scripts.keep p).get? k = some s) :
      scripts.get? k = some s := by
    rw [Table.get?_keep, Option.filter_eq_some_iff] at found
    exact found.1
  exact ⟨fun k s found => h.triggers k s (old found), fun k s found => h.below k s (old found),
    fun k s k' s' found found' => h.apart k s k' s' (old found) (old found')⟩

/-- A script with new ids is added, or takes the place of another. -/
theorem set (h : Apart scripts next) {r : Registry} {forms : List LineForm} {lines : List String}
    {s : Script} (compiles : r.compileLines forms lines next = .ok s.forest) (key : String) :
    Apart (scripts.set key s) (next + lines.length) := by
  have fresh (i : NodeId) (listed : i ∈ s.forest.outline) :=
    Registry.outline_of_compileLines compiles listed
  have cases_set {k : String} {s' : Script} (found : (scripts.set key s).get? k = some s') :
      k = key ∧ s' = s ∨ scripts.get? k = some s' := by
    rw [Table.get?_set] at found
    split at found
    · rename_i same
      cases found
      exact .inl ⟨same, rfl⟩
    · exact .inr found
  refine ⟨fun k s' found => ?_, fun k s' found i listed => ?_, ?_⟩
  · rcases cases_set found with ⟨-, rfl⟩ | old
    · obtain ⟨ds, items, _, resolved, is⟩ := Registry.resolved_of_compileLines compiles
      rw [is]
      exact resolved.triggersApart
    · exact h.triggers k s' old
  · rcases cases_set found with ⟨-, rfl⟩ | old
    · exact (fresh i listed).2
    · exact Nat.lt_add_right _ (h.below k s' old i listed)
  · intro k s₁ k' s₂ found found' i listed listed'
    rcases cases_set found with ⟨rfl, rfl⟩ | old
    · rcases cases_set found' with ⟨rfl, -⟩ | old'
      · rfl
      · exact absurd (h.below k' s₂ old' i listed') (Nat.not_lt.mpr (fresh i listed).1)
    · rcases cases_set found' with ⟨rfl, rfl⟩ | old'
      · exact absurd (h.below k s₁ old i listed) (Nat.not_lt.mpr (fresh i listed').1)
      · exact h.apart k s₁ k' s₂ old old' i listed listed'

end Apart

namespace Engine

variable {e : Engine}

theorem lines_of_compile {c : ScriptConfig} {first : Nat} {s : Script}
    (compiles : e.compile c first = .ok s) :
    e.registry.compileLines LineForm.standards c.lines first = .ok s.forest := by
  rw [compile] at compiles
  split at compiles
  · cases compiles
  · split at compiles
    · cases compiles
    · rename_i forest made
      cases compiles
      exact made

theorem apart_compileAll {cs : List ScriptConfig} {next : Nat} {ss : List Script}
    (compiles : e.compileAll next cs = .ok ss) {scripts : Table String Script}
    (h : Apart scripts next) :
    Apart (ss.foldl (fun t s => t.set s.id s) scripts)
      (cs.foldl (fun n c => n + c.lines.length) next) := by
  induction cs generalizing next ss scripts with
  | nil =>
    cases compiles
    exact h
  | cons c rest ih =>
    rw [compileAll] at compiles
    split at compiles
    · cases compiles
    · rename_i s first
      split at compiles
      · cases compiles
      · rename_i tail others
        cases compiles
        exact ih others (h.set (lines_of_compile first) s.id)

/-- How scripts come to be in the table: they are loaded and removed, and nothing else that is done
with an engine changes them. -/
inductive Loaded : Engine → Prop
  | none {e : Engine} (empty : e.scripts = Table.empty) : Loaded e
  | load {e : Engine} (loaded : Loaded e) (c : ScriptConfig) : Loaded (e.load c).2
  | loadAll {e : Engine} (loaded : Loaded e) (cs : List ScriptConfig) : Loaded (e.loadAll cs).2
  | remove {e : Engine} (loaded : Loaded e) (id : String) : Loaded (e.remove id).2
  | kept {e e' : Engine} (loaded : Loaded e) (scripts : e'.scripts = e.scripts)
      (nextNode : e'.nextNode = e.nextNode) : Loaded e'

theorem Loaded.apart (loaded : e.Loaded) : Apart e.scripts e.nextNode := by
  induction loaded with
  | none empty =>
    rw [empty]
    exact .empty _
  | @load e _ c ih =>
    rw [Engine.load]
    split
    · exact ih
    · rename_i s compiles
      exact ih.set (lines_of_compile compiles) s.id
  | @loadAll e _ cs ih =>
    rw [Engine.loadAll]
    split
    · exact ih
    · rename_i ss compiles
      exact apart_compileAll compiles ih
  | @remove e _ id ih =>
    rw [Engine.remove]
    split
    · exact ih
    · exact ih.keep _
  | kept _ scripts nextNode ih =>
    rw [scripts, nextNode]
    exact ih

theorem found_of_entry {a : String × Script} (here : a ∈ e.scripts.entries) :
    e.scripts.get? a.1 = some a.2 := (e.scripts.get?_eq_some_iff a.1 a.2).mpr here

theorem Loaded.triggers (loaded : e.Loaded) {s : Script} (member : s ∈ e.scripts.values) :
    s.forest.TriggersApart := by
  obtain ⟨a, here, rfl⟩ := List.mem_map.mp member
  exact loaded.apart.triggers a.1 a.2 (found_of_entry here)

theorem Loaded.disjoint (loaded : e.Loaded) {s s' : Script} (member : s ∈ e.scripts.values)
    (member' : s' ∈ e.scripts.values) (other : s ≠ s') :
    ∀ i ∈ s.forest.outline, i ∉ s'.forest.outline := by
  intro i listed listed'
  obtain ⟨a, here, rfl⟩ := List.mem_map.mp member
  obtain ⟨b, there, rfl⟩ := List.mem_map.mp member'
  have found := found_of_entry here
  have same := loaded.apart.apart a.1 a.2 b.1 b.2 found (found_of_entry there) i listed listed'
  rw [same, found_of_entry there] at found
  exact other (Option.some.inj found).symm

theorem Loaded.separate (loaded : e.Loaded) :
    e.scripts.values.Pairwise fun s s' => ∀ i ∈ s.forest.outline, i ∉ s'.forest.outline := by
  have distinct : e.scripts.entries.Pairwise fun a b => a.1 ≠ b.1 :=
    List.pairwise_map.mp e.scripts.distinct
  refine List.pairwise_map.mpr
    (distinct.imp_of_mem fun {a b} here there differ i listed listed' => ?_)
  exact differ (loaded.apart.apart a.1 a.2 b.1 b.2 (found_of_entry here) (found_of_entry there) i
    listed listed')

theorem Loaded.pairwise (loaded : e.Loaded) :
    e.scripts.values.Pairwise fun s s' => ∀ i, s.forest.Uses i → ¬ s'.forest.Uses i :=
  loaded.separate.imp fun apart i uses uses' =>
    apart i (Forest.listed_of_uses uses) (Forest.listed_of_uses uses')

end Engine

end Cuescript
