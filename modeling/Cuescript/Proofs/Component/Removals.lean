import Cuescript.Proofs.Component.Registrations
import Mathlib.Data.List.Induction

/-!
What is left of a registry when a registration is removed, and what a registry lists. A removal
begins at one name and takes every name of the registration that it leads to. Main statement: after
any changes it takes those names and no others, and the list of each kind holds the identifiers that
lead to their own components, in order and no two of them alike but for case.
-/
namespace Cuescript

inductive AnyFactory where
  | action (f : Factory Action)
  | requirement (f : Factory Requirement)
  | trigger (f : Factory Trigger)

namespace AnyFactory

def serial : AnyFactory → Nat
  | action f => f.serial
  | requirement f => f.serial
  | trigger f => f.serial

def info : AnyFactory → ComponentInfo
  | action f => f.info
  | requirement f => f.info
  | trigger f => f.info

end AnyFactory

namespace Shelf

variable {α : Type} {s : Shelf α} {f g : Factory α} {name identifier : String}

theorem remove_of_absent (absent : s.find? identifier = none) :
    s.remove identifier = (false, s) := by
  simp [remove, absent]

theorem remove_removed : (s.remove identifier).1 = (s.find? identifier).isSome := by
  unfold remove
  cases s.find? identifier <;> rfl

theorem find?_remove_of_some (leads : s.find? identifier = some f) :
    (s.remove identifier).2.find? name = some g ↔ s.find? name = some g ∧ g.serial ≠ f.serial := by
  simp [find?_remove_iff, leads]

theorem remove_congr (same : keyOf name = keyOf identifier) :
    s.remove name = s.remove identifier := by
  simp only [remove, find?, same]

theorem nodup_keys_primaries (s : Shelf α) : (s.primaries.map keyOf).Nodup := by
  have keys : s.primaries.map keyOf =
      (s.entries.filter fun e => e.1 = keyOf e.2.info.identifier).map Prod.fst := by
    rw [primaries, List.map_map]
    refine List.map_congr_left fun e member => ?_
    have own := (List.mem_filter.mp member).2
    exact (of_decide_eq_true own).symm
  exact keys ▸ s.distinct.sublist (List.filter_sublist.map _)

end Shelf

namespace Registry

variable {r : Registry} {cs : List Change} {c : Change} {kind : Kind} {name other : String}
  {f g : AnyFactory}

def get? (r : Registry) (kind : Kind) (name : String) : Option AnyFactory :=
  match kind with
  | .action => (r.actions.find? name).map .action
  | .requirement => (r.requirements.find? name).map .requirement
  | .trigger => (r.triggers.find? name).map .trigger

theorem serial?_eq (r : Registry) (kind : Kind) (name : String) :
    r.serial? kind name = (r.get? kind name).map (·.serial) := by
  cases kind <;> simp [serial?, get?, Function.comp_def, AnyFactory.serial]

def Change.made? (serial : Nat) : Change → Option AnyFactory
  | .register (.action b) identifier aliases description =>
    some (.action ⟨serial, ⟨.action, identifier, b.target, aliases, description, b.options⟩,
      b.create⟩)
  | .register (.requirement b) identifier aliases description =>
    some (.requirement ⟨serial, ⟨.requirement, identifier, b.target, aliases, description,
      b.options⟩, b.create⟩)
  | .register (.trigger b) identifier aliases description =>
    some (.trigger ⟨serial, ⟨.trigger, identifier, b.target, aliases, description, b.options⟩,
      b.create⟩)
  | .unregister .. => none

theorem Change.serial_of_made {serial : Nat} (made : c.made? serial = some f) :
    f.serial = serial := by
  cases c with
  | register component =>
    cases component <;> cases made <;> rfl
  | unregister => cases made

theorem of_get?_apply (found : (r.apply c).get? kind name = some f) :
    r.get? kind name = some f ∨ c.made? r.nextSerial = some f := by
  cases c with
  | register component identifier aliases description =>
    cases component <;> cases kind <;> try exact .inl found
    all_goals
      obtain ⟨g, here, rfl⟩ := Option.map_eq_some_iff.mp found
      rcases Shelf.of_find?_add here with ⟨rfl, -⟩ | ⟨old, -⟩
      · exact .inr rfl
      · exact .inl (by simp [get?, old])
  | unregister removed identifier =>
    left
    cases removed <;> cases kind <;> try exact found
    all_goals
      obtain ⟨g, here, rfl⟩ := Option.map_eq_some_iff.mp found
      simp [get?, (Shelf.find?_remove_iff.mp here).1]

theorem Told.named {infos : List ComponentInfo} (told : Told infos r)
    (found : r.get? kind name = some f) : Shelf.keyOf name ∈ f.info.names.map Shelf.keyOf := by
  cases kind
  all_goals obtain ⟨g, here, rfl⟩ := Option.map_eq_some_iff.mp found
  · exact told.actions.named here
  · exact told.requirements.named here
  · exact told.triggers.named here

theorem serial_lt_after (found : (after cs).get? kind name = some f) :
    f.serial < (after cs).nextSerial := by
  have leads : (after cs).serial? kind name = some f.serial := by simp [serial?_eq, found]
  obtain ⟨info, here, -⟩ := (told_after cs).resolved leads
  exact (told_after cs).count ▸ (List.getElem?_eq_some_iff.mp here).1

theorem after_concat (cs : List Change) (c : Change) : after (cs ++ [c]) = (after cs).apply c := by
  simp [after]

theorem eq_of_serial (here : (after cs).get? kind name = some f)
    (there : (after cs).get? kind other = some g) (same : g.serial = f.serial) : g = f := by
  induction cs using List.reverseRecOn with
  | nil => cases kind <;> cases here
  | append_singleton cs c ih =>
    rw [after_concat] at here there
    rcases of_get?_apply here with old | new <;> rcases of_get?_apply there with old' | new'
    · exact ih old old'
    · have before := serial_lt_after old
      have now := Change.serial_of_made new'
      omega
    · have before := serial_lt_after old'
      have now := Change.serial_of_made new
      omega
    · exact Option.some.inj (new'.symm.trans new)

theorem serial_ne_iff (here : (after cs).get? kind name = some f)
    (there : (after cs).get? kind other = some g) : g.serial ≠ f.serial ↔ g ≠ f :=
  not_congr ⟨eq_of_serial here there, congrArg _⟩

theorem removed_eq (r : Registry) (kind : Kind) (identifier : String) :
    (r.unregister kind identifier).1 = (r.get? kind identifier).isSome := by
  cases kind <;> simp [unregister, get?, Shelf.remove_removed]

theorem get?_unregister_iff {identifier : String} (leads : r.get? kind identifier = some f) :
    (r.unregister kind identifier).2.get? kind name = some g ↔
      r.get? kind name = some g ∧ g.serial ≠ f.serial := by
  cases kind
  all_goals
    obtain ⟨f, found, rfl⟩ := Option.map_eq_some_iff.mp leads
    simp only [get?, unregister, Option.map_eq_some_iff, Shelf.find?_remove_of_some found]
    constructor
    · rintro ⟨g, ⟨there, differs⟩, rfl⟩
      exact ⟨⟨g, there, rfl⟩, differs⟩
    · rintro ⟨⟨g, there, rfl⟩, differs⟩
      exact ⟨g, ⟨there, differs⟩, rfl⟩

theorem unregister_of_absent {identifier : String} (absent : r.get? kind identifier = none) :
    r.unregister kind identifier = (false, r) := by
  cases kind <;> simp_all [get?, unregister, Shelf.remove_of_absent]

structure Removal (r : Registry) (kind : Kind) (identifier : String) : Prop where
  removed_iff : (r.unregister kind identifier).1 = true ↔ ∃ f, r.get? kind identifier = some f
  /-- The name is the identifier of the component or an alias, in any case. -/
  named : ∀ f ∈ r.get? kind identifier, Shelf.keyOf identifier ∈ f.info.names.map Shelf.keyOf
  spelled : ∀ name, Shelf.keyOf name = Shelf.keyOf identifier →
    r.unregister kind name = r.unregister kind identifier
  /-- Names of the component lead nowhere, and all others to where they led. -/
  left : ∀ f ∈ r.get? kind identifier, ∀ name g,
    (r.unregister kind identifier).2.get? kind name = some g ↔ r.get? kind name = some g ∧ g ≠ f
  apart : ∀ other ≠ kind, (r.unregister kind identifier).2.identifiers other = r.identifiers other ∧
    ∀ name, (r.unregister kind identifier).2.get? other name = r.get? other name
  unchanged : (r.unregister kind identifier).1 = false → (r.unregister kind identifier).2 = r

theorem after_removal (cs : List Change) (kind : Kind) (identifier : String) :
    Removal (after cs) kind identifier where
  removed_iff := by rw [removed_eq, Option.isSome_iff_exists]
  named _ leads := (told_after cs).named leads
  spelled name same := by cases kind <;> simp only [unregister, Shelf.remove_congr same]
  left f leads name g := by
    rw [get?_unregister_iff leads]
    exact and_congr_right fun there => serial_ne_iff leads there
  apart other differs := by
    cases kind <;> cases other <;> first | exact absurd rfl differs | exact ⟨rfl, fun _ => rfl⟩
  unchanged kept := by
    have absent : (after cs).get? kind identifier = none := by simpa [removed_eq] using kept
    rw [unregister_of_absent absent]

theorem identifiers_perm (r : Registry) (kind : Kind) :
    (r.identifiers kind).Perm (r.primaries kind) := List.mergeSort_perm _ _

theorem length_identifiers (r : Registry) (kind : Kind) :
    (r.identifiers kind).length = (r.primaries kind).length := (r.identifiers_perm kind).length_eq

theorem nodup_keys_identifiers (r : Registry) (kind : Kind) :
    ((r.identifiers kind).map Shelf.keyOf).Nodup := by
  rw [((r.identifiers_perm kind).map Shelf.keyOf).nodup_iff]
  cases kind <;> exact Shelf.nodup_keys_primaries _

theorem ascending_identifiers (r : Registry) (kind : Kind) :
    (r.identifiers kind).Pairwise (· < ·) := by
  have sorted : (r.identifiers kind).Pairwise fun a b => decide (a ≤ b) = true :=
    List.pairwise_mergeSort (fun a b c ab bc => by
        simp only [decide_eq_true_eq] at *
        exact String.le_trans ab bc)
      (fun a b => by simpa using String.le_total a b) _
  have apart : (r.identifiers kind).Pairwise (· ≠ ·) :=
    .of_map _ (fun _ _ => mt (congrArg Shelf.keyOf)) (r.nodup_keys_identifiers kind)
  refine sorted.imp₂ (fun a b le ne => ?_) apart
  have le : a ≤ b := of_decide_eq_true le
  exact Std.lt_of_le_of_ne le ne

structure Catalogued (r : Registry) (kind : Kind) : Prop where
  ascending : (r.identifiers kind).Pairwise (· < ·)
  unlike : ((r.identifiers kind).map Shelf.keyOf).Nodup
  own : ∀ name, name ∈ r.identifiers kind ↔
    ∃ f, r.get? kind name = some f ∧ f.info.identifier = name

theorem catalogued (r : Registry) (kind : Kind) : Catalogued r kind where
  ascending := r.ascending_identifiers kind
  unlike := r.nodup_keys_identifiers kind
  own name := by
    rw [(r.identifiers_perm kind).mem_iff]
    cases kind <;> simp [primaries, get?, Shelf.mem_primaries_iff, AnyFactory.info]

theorem size_eq (r : Registry) : r.size = (r.identifiers .action).length +
    (r.identifiers .requirement).length + (r.identifiers .trigger).length := by
  simp only [length_identifiers]
  rfl

/-- After any changes a removal takes all names of one component, and each kind is listed by the
identifiers that lead to their own components. -/
theorem after_removals (cs : List Change) :
    (∀ kind identifier, Removal (after cs) kind identifier) ∧
      (∀ kind, Catalogued (after cs) kind) ∧
      (after cs).size = ((after cs).identifiers .action).length +
        ((after cs).identifiers .requirement).length + ((after cs).identifiers .trigger).length :=
  ⟨after_removal cs, catalogued _, size_eq _⟩

end Registry

end Cuescript
