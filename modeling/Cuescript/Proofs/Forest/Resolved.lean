import Cuescript.Forest.Compile
import Cuescript.Proofs.Forest.Layout

/-!
Directives and the items made of them. The directive at position `k` of a listing becomes an item
of its own kind with the id `first + k`; a listing compiles exactly if each directive can be made
on its own, and its forest is the one of the items.
-/
namespace Cuescript

def Item.id : Item → NodeId
  | .requirement n => n.id
  | .action s => s.id
  | .trigger n => n.id

structure Resolved (r : Registry) (first : Nat) (ds : List Directive) (items : List Item) : Prop where
  length : items.length = ds.length
  item : ∀ (k : Nat) (d : Directive), ds[k]? = some d →
    ∃ i, items[k]? = some i ∧ d.resolve r ⟨first + k⟩ = .ok i

theorem map_ok {ε α β : Type} {x : Except ε α} {f : α → β} {b : β} (h : x.map f = .ok b) :
    ∃ a, x = .ok a ∧ f a = b := by
  cases x with
  | error e => cases h
  | ok a => exact ⟨a, rfl, Except.ok.inj h⟩

theorem ok_of_toBool {ε α : Type} {x : Except ε α} (h : x.toBool = true) : ∃ a, x = .ok a := by
  cases x with
  | error e => cases h
  | ok a => exact ⟨a, rfl⟩

namespace Directive

variable {d : Directive} {r : Registry}

theorem resolve_kind_id {id : NodeId} {i : Item} (made : d.resolve r id = .ok i) :
    i.kind = d.kind ∧ i.id = id := by
  unfold resolve at made
  cases kind : d.kind <;> rw [kind] at made <;> obtain ⟨parts, _, rfl⟩ := map_ok made <;>
    exact ⟨rfl, rfl⟩

theorem resolve_any_id {id : NodeId} {i : Item} (made : d.resolve r id = .ok i) (other : NodeId) :
    ∃ j, d.resolve r other = .ok j := by
  unfold resolve at made ⊢
  cases kind : d.kind <;> rw [kind] at made <;> obtain ⟨parts, ok, rfl⟩ := map_ok made <;>
    dsimp only <;> rw [ok] <;> exact ⟨_, rfl⟩

end Directive

namespace Resolved

variable {r : Registry} {first : Nat} {d : Directive} {ds : List Directive} {items : List Item}

theorem nil : Resolved r first [] [] := ⟨rfl, fun k d here => by simp at here⟩

theorem cons {i : Item} (made : d.resolve r ⟨first⟩ = .ok i) (rest : Resolved r (first + 1) ds items) :
    Resolved r first (d :: ds) (i :: items) := by
  refine ⟨congrArg (· + 1) rest.length, fun k e here => ?_⟩
  cases k with
  | zero =>
    cases here
    exact ⟨i, rfl, made⟩
  | succ k =>
    obtain ⟨j, there, same⟩ := rest.item k e here
    refine ⟨j, there, ?_⟩
    rwa [show first + (k + 1) = first + 1 + k by omega]

theorem kinds (h : Resolved r first ds items) : Layout.kinds items = ds.map (·.kind) := by
  apply List.ext_getElem?
  intro k
  rw [Layout.getElem?_kinds, List.getElem?_map]
  cases here : ds[k]? with
  | none =>
    have short := List.getElem?_eq_none_iff.mp here
    rw [List.getElem?_eq_none (by rw [h.length]; exact short)]
    rfl
  | some d =>
    obtain ⟨i, there, made⟩ := h.item k d here
    rw [there, Option.map_some, Option.map_some, (Directive.resolve_kind_id made).1]

theorem item_id (h : Resolved r first ds items) {k : Nat} {i : Item} (here : items[k]? = some i) :
    i.id = ⟨first + k⟩ := by
  have inside : k < ds.length := h.length ▸ (List.getElem?_eq_some_iff.mp here).1
  obtain ⟨j, there, made⟩ := h.item k ds[k] (List.getElem?_eq_getElem inside)
  rw [here] at there
  cases there
  exact (Directive.resolve_kind_id made).2

theorem take (h : Resolved r first ds items) (n : Nat) :
    Resolved r first (ds.take n) (items.take n) := by
  refine ⟨by rw [List.length_take, List.length_take, h.length], fun k d here => ?_⟩
  rw [List.getElem?_take] at here ⊢
  split at here
  · rename_i inside
    rw [if_pos inside]
    exact h.item k d here
  · cases here

theorem append {es : List Directive} (h : Resolved r first (ds ++ es) items) :
    Resolved r first ds (items.take ds.length) ∧
      Layout.kinds (items.drop ds.length) = es.map (·.kind) := by
  have front := h.take ds.length
  rw [List.take_left] at front
  refine ⟨front, ?_⟩
  rw [Layout.kinds, List.map_drop, ← Layout.kinds, h.kinds, List.map_append]
  exact List.drop_left' (List.length_map ..)

end Resolved

namespace Registry

variable {r : Registry} {total first : Nat} {ds : List Directive} {items : List Item}

theorem resolveAll_ok_iff :
    r.resolveAll total first ds = .ok items ↔ Resolved r first ds items := by
  induction ds generalizing first items with
  | nil =>
    constructor
    · intro h
      cases h
      exact .nil
    · intro h
      rw [List.eq_nil_of_length_eq_zero h.length]
      rfl
  | cons d ds ih =>
    unfold resolveAll
    constructor
    · intro h
      cases made : d.resolve r ⟨first⟩ with
      | error cause => rw [made] at h; cases h
      | ok i =>
        rw [made] at h
        cases tail : r.resolveAll total (first + 1) ds with
        | error e => rw [tail] at h; cases h
        | ok rest =>
          rw [tail] at h
          cases h
          exact .cons made (ih.mp tail)
    · intro h
      obtain ⟨i, here, made⟩ := h.item 0 d rfl
      cases items with
      | nil => cases here
      | cons j items =>
        cases here
        have rest : Resolved r (first + 1) ds items := by
          refine ⟨Nat.succ.inj h.length, fun k e there => ?_⟩
          obtain ⟨j, found, same⟩ := h.item (k + 1) e there
          exact ⟨j, found, by rwa [show first + 1 + k = first + (k + 1) by omega]⟩
        rw [show d.resolve r ⟨first⟩ = .ok i from made, ih.mpr rest]

theorem compile_ok_iff {listing : Listing} {f : Forest} :
    r.compile listing first = .ok f ↔
      ∃ items, Resolved r first listing.directives items ∧ f = Forest.ofItems items := by
  unfold compile
  constructor
  · intro h
    obtain ⟨items, all, rfl⟩ := map_ok h
    exact ⟨items, resolveAll_ok_iff.mp all, rfl⟩
  · rintro ⟨items, resolved, rfl⟩
    rw [resolveAll_ok_iff.mpr resolved]
    rfl

theorem exists_resolved (first : Nat)
    (makes : ∀ d ∈ ds, ∃ id item, d.resolve r id = .ok item) :
    ∃ items, Resolved r first ds items := by
  induction ds generalizing first with
  | nil => exact ⟨[], .nil⟩
  | cons d ds ih =>
    obtain ⟨id, item, made⟩ := makes d List.mem_cons_self
    obtain ⟨i, here⟩ := Directive.resolve_any_id made ⟨first⟩
    obtain ⟨items, rest⟩ := ih (first + 1) fun e he => makes e (List.mem_cons_of_mem d he)
    exact ⟨i :: items, .cons here rest⟩

end Registry

end Cuescript
