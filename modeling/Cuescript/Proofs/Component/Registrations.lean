import Cuescript.Catalogue.Actions

/-!
What the names of a registry lead to, after any changes. A registration that is made again under
its identifier gives up that name alone: the aliases of the old one stay with it until they are
removed, and the old one is no longer counted. Main statement: that is the only way in which a name
leads to a component that does not stand under its own identifier.
-/
namespace Cuescript

/-- Another component of the kind was registered under the same identifier later on. -/
def Superseded (infos : List ComponentInfo) (serial : Nat) : Prop :=
  ∃ info, infos[serial]? = some info ∧ ∃ later ∈ infos.drop (serial + 1),
    later.kind = info.kind ∧ Shelf.keyOf later.identifier = Shelf.keyOf info.identifier

section Superseded

variable {infos : List ComponentInfo} {info later : ComponentInfo} {serial : Nat}

theorem superseded_append (here : infos[serial]? = some info) :
    Superseded (infos ++ [later]) serial ↔ Superseded infos serial ∨
      later.kind = info.kind ∧ Shelf.keyOf later.identifier = Shelf.keyOf info.identifier := by
  have inside : serial < infos.length := (List.getElem?_eq_some_iff.mp here).1
  have split : (infos ++ [later]).drop (serial + 1) = infos.drop (serial + 1) ++ [later] :=
    List.drop_append_of_le_length inside
  simp only [Superseded, split, List.getElem?_append_left inside, here, Option.some.injEq,
    exists_eq_left', List.mem_append, List.mem_singleton, or_and_right, exists_or, exists_eq_left]

theorem not_superseded_last : ¬ Superseded (infos ++ [info]) infos.length := by
  rintro ⟨_, _, later, member, _⟩
  rw [List.drop_eq_nil_of_le (by simp)] at member
  cases member

end Superseded

namespace Shelf

variable {α : Type} {s : Shelf α} {f g : Factory α} {name : String}

theorem find?_addAlias (f : Factory α) (s : Shelf α) (other name : String) :
    find? (addAlias f s other) name =
      (s.find? name).or (if keyOf name = keyOf other then some f else none) := by
  unfold addAlias
  split
  · rename_i taken
    by_cases same : keyOf name = keyOf other
    · obtain ⟨g, found⟩ := Option.isSome_iff_exists.mp taken
      rw [find?, same, found, Option.some_or]
    · rw [if_neg same, Option.or_none]
  · rename_i free
    rw [find?, Table.get?_set]
    by_cases same : keyOf name = keyOf other
    · have none : s.get? (keyOf other) = none := by
        rw [← Option.not_isSome_iff_eq_none]
        exact free
      rw [if_pos same, if_pos same, find?, same, none, Option.none_or]
    · rw [if_neg same, if_neg same, Option.or_none, find?]

theorem find?_addAliases (f : Factory α) (s : Shelf α) (aliases : List String) (name : String) :
    find? (aliases.foldl (addAlias f) s) name =
      (s.find? name).or (if keyOf name ∈ aliases.map keyOf then some f else none) := by
  induction aliases generalizing s with
  | nil => simp
  | cons other rest ih =>
    rw [List.foldl_cons, ih, find?_addAlias, Option.or_assoc]
    by_cases same : keyOf name = keyOf other <;> simp [same]

/-- An identifier goes to the new registration in any case, an alias only if it is free. -/
theorem find?_add (s : Shelf α) (f : Factory α) (name : String) :
    (s.add f).find? name =
      if keyOf name = keyOf f.info.identifier then some f
      else (s.find? name).or (if keyOf name ∈ f.info.aliases.map keyOf then some f else none) := by
  rw [add, find?_addAliases, find?, Table.get?_set]
  split
  · rw [Option.some_or]
  · rfl

theorem find?_add_own (s : Shelf α) (f : Factory α) :
    (s.add f).find? f.info.identifier = some f := by
  rw [find?_add, if_pos rfl]

theorem of_find?_add (found : (s.add f).find? name = some g) :
    g = f ∧ keyOf name ∈ f.info.names.map keyOf ∨
      s.find? name = some g ∧ keyOf name ≠ keyOf f.info.identifier := by
  rw [find?_add] at found
  split at found
  · rename_i same
    cases found
    exact .inl ⟨rfl, same ▸ List.mem_cons_self⟩
  · rename_i differs
    cases old : s.find? name with
    | some h =>
      rw [old] at found
      exact .inr ⟨found, differs⟩
    | none =>
      rw [old, Option.none_or] at found
      obtain ⟨listed, ⟨rfl⟩⟩ := Option.ite_none_right_eq_some.mp found
      exact .inl ⟨rfl, List.mem_cons_of_mem _ listed⟩

theorem serial_add {n : Nat} (older : n ≠ f.serial) :
    ((s.add f).find? name).map (·.serial) = some n ↔
      keyOf name ≠ keyOf f.info.identifier ∧ (s.find? name).map (·.serial) = some n := by
  rw [find?_add]
  by_cases same : keyOf name = keyOf f.info.identifier
  · simp [same, Ne.symm older]
  · cases s.find? name with
    | some g => simp [same]
    | none => simp [same, Ne.symm older]

theorem serial_of_add {n : Nat} (found : ((s.add f).find? name).map (·.serial) = some n) :
    (s.find? name).map (·.serial) = some n ∨ n = f.serial := by
  obtain ⟨g, here, rfl⟩ := Option.map_eq_some_iff.mp found
  rcases of_find?_add here with ⟨rfl, -⟩ | ⟨old, -⟩
  · exact .inr rfl
  · exact .inl (by rw [old]; rfl)

theorem find?_remove_iff {identifier : String} :
    (s.remove identifier).2.find? name = some g ↔
      s.find? name = some g ∧ ∀ f, s.find? identifier = some f → g.serial ≠ f.serial := by
  unfold remove
  cases gone : s.find? identifier with
  | none => simp
  | some f =>
    simp only [find?, Table.get?_keep, Option.filter_eq_some_iff, Option.some.injEq, forall_eq',
      decide_eq_true_eq]

theorem serial_of_remove {identifier : String} {n : Nat}
    (found : ((s.remove identifier).2.find? name).map (·.serial) = some n) :
    (s.find? name).map (·.serial) = some n := by
  obtain ⟨g, here, rfl⟩ := Option.map_eq_some_iff.mp found
  rw [(find?_remove_iff.mp here).1, Option.map_some]

theorem serial_remove {identifier : String} {n : Nat}
    (found : (s.find? identifier).map (·.serial) = some n) :
    ((s.remove identifier).2.find? name).map (·.serial) ≠ some n := by
  obtain ⟨f, leads, rfl⟩ := Option.map_eq_some_iff.mp found
  intro stays
  obtain ⟨g, here, same⟩ := Option.map_eq_some_iff.mp stays
  exact (find?_remove_iff.mp here).2 f leads same

theorem mem_primaries_iff :
    name ∈ s.primaries ↔ ∃ f, s.find? name = some f ∧ f.info.identifier = name := by
  simp only [primaries, List.mem_map, List.mem_filter, decide_eq_true_eq, find?,
    Table.get?_eq_some_iff]
  constructor
  · rintro ⟨⟨key, f⟩, ⟨member, (own : key = _)⟩, rfl⟩
    exact ⟨f, own ▸ member, rfl⟩
  · rintro ⟨f, member, rfl⟩
    exact ⟨_, ⟨member, rfl⟩, rfl⟩

/-- Each name of the shelf leads to one of the registrations told of, which has that name, and which
stands under its own identifier unless it was superseded. -/
structure Told (infos : List ComponentInfo) (kind : Kind) (s : Shelf α) : Prop where
  registered : ∀ {name f}, s.find? name = some f → infos[f.serial]? = some f.info
  kind : ∀ {name f}, s.find? name = some f → f.info.kind = kind
  named : ∀ {name f}, s.find? name = some f → keyOf name ∈ f.info.names.map keyOf
  own : ∀ {name f}, s.find? name = some f →
    ((s.find? f.info.identifier).map (·.serial) = some f.serial ↔ ¬ Superseded infos f.serial)

namespace Told

variable {infos : List ComponentInfo} {kind : Kind}

theorem serial_lt (told : Told infos kind s) (found : s.find? name = some f) :
    f.serial < infos.length :=
  (List.getElem?_eq_some_iff.mp (told.registered found)).1

theorem resolved (told : Told infos kind s) {n : Nat}
    (found : (s.find? name).map (·.serial) = some n) :
    ∃ info, infos[n]? = some info ∧ info.kind = kind ∧ keyOf name ∈ info.names.map keyOf ∧
      ((s.find? info.identifier).map (·.serial) = some n ↔ ¬ Superseded infos n) := by
  obtain ⟨f, here, rfl⟩ := Option.map_eq_some_iff.mp found
  exact ⟨f.info, told.registered here, told.kind here, told.named here, told.own here⟩

theorem empty : Told infos kind (Table.empty : Shelf α) where
  registered := nofun
  kind := nofun
  named := nofun
  own := nofun

theorem other (told : Told infos kind s) {info : ComponentInfo} (differs : info.kind ≠ kind) :
    Told (infos ++ [info]) kind s where
  registered found := List.getElem?_append_left (told.serial_lt found) ▸ told.registered found
  kind := told.kind
  named := told.named
  own found := by
    rw [superseded_append (told.registered found), told.kind found]
    simp only [differs, false_and, or_false]
    exact told.own found

theorem add (told : Told infos kind s) (fresh : f.serial = infos.length) (is : f.info.kind = kind) :
    Told (infos ++ [f.info]) kind (s.add f) where
  registered found := by
    rcases of_find?_add found with ⟨rfl, -⟩ | ⟨old, -⟩
    · simp [fresh]
    · exact List.getElem?_append_left (told.serial_lt old) ▸ told.registered old
  kind found := by
    rcases of_find?_add found with ⟨rfl, -⟩ | ⟨old, -⟩
    · exact is
    · exact told.kind old
  named found := by
    rcases of_find?_add found with ⟨rfl, named⟩ | ⟨old, -⟩
    · exact named
    · exact told.named old
  own found := by
    rcases of_find?_add found with ⟨rfl, -⟩ | ⟨old, -⟩
    · rw [find?_add_own]
      exact iff_of_true rfl (fresh ▸ not_superseded_last)
    · rw [serial_add (fresh ▸ Nat.ne_of_lt (told.serial_lt old)),
        superseded_append (told.registered old), told.own old, not_or, is, told.kind old]
      simp only [true_and, and_comm, eq_comm, ne_eq]

theorem added (told : Told infos kind s) (fresh : f.serial = infos.length)
    (listed : name ∈ f.info.names) :
    ((s.add f).find? name).map (·.serial) = some infos.length ↔
      keyOf name = keyOf f.info.identifier ∨ (s.find? name).map (·.serial) = none := by
  rw [find?_add]
  by_cases same : keyOf name = keyOf f.info.identifier
  · simp [same, fresh]
  · have listed : keyOf name ∈ f.info.aliases.map keyOf := by
      rcases List.mem_cons.mp listed with rfl | listed
      · exact absurd rfl same
      · exact List.mem_map_of_mem listed
    cases old : s.find? name with
    | some g => simp [same, Nat.ne_of_lt (told.serial_lt old)]
    | none => simp [same, listed, fresh]

theorem remove (told : Told infos kind s) (identifier : String) :
    Told infos kind (s.remove identifier).2 where
  registered found := told.registered (find?_remove_iff.mp found).1
  kind found := told.kind (find?_remove_iff.mp found).1
  named found := told.named (find?_remove_iff.mp found).1
  own found := by
    obtain ⟨old, stays⟩ := find?_remove_iff.mp found
    rw [← told.own old]
    simp only [Option.map_eq_some_iff, find?_remove_iff]
    constructor
    · rintro ⟨g, ⟨there, -⟩, same⟩
      exact ⟨g, there, same⟩
    · rintro ⟨g, there, same⟩
      exact ⟨g, ⟨there, same ▸ stays⟩, same⟩

/-- No registration of a shelf is counted exactly if each that is left was superseded. -/
theorem primaries_eq_nil_iff (told : Told infos kind s) :
    s.primaries = [] ↔
      ∀ name n, (s.find? name).map (·.serial) = some n → Superseded infos n := by
  simp only [List.eq_nil_iff_forall_not_mem, mem_primaries_iff, not_exists, not_and]
  constructor
  · intro unowned name n found
    obtain ⟨f, here, rfl⟩ := Option.map_eq_some_iff.mp found
    refine Classical.byContradiction fun stands => ?_
    obtain ⟨g, own, same⟩ := Option.map_eq_some_iff.mp ((told.own here).mpr stands)
    have infoEq : g.info = f.info := by
      have registered := told.registered own
      rw [same, told.registered here] at registered
      exact (Option.some.inj registered).symm
    exact unowned _ g own (by rw [infoEq])
  · rintro superseded _ f own rfl
    have serial : (s.find? f.info.identifier).map (·.serial) = some f.serial := by rw [own]; rfl
    exact (told.own own).mp serial (superseded _ _ serial)

end Told

end Shelf
namespace Registry

inductive Change where
  | register (component : AnyBlueprint) (identifier : String) (aliases : List String)
      (description : Option String)
  | unregister (kind : Kind) (identifier : String)

def apply (r : Registry) : Change → Registry
  | .register component identifier aliases description =>
    r.register component identifier aliases description
  | .unregister kind identifier => (r.unregister kind identifier).2

def after (cs : List Change) : Registry := cs.foldl apply empty

def Change.info? : Change → Option ComponentInfo
  | .register (.action b) identifier aliases description =>
    some ⟨.action, identifier, b.target, aliases, description, b.options⟩
  | .register (.requirement b) identifier aliases description =>
    some ⟨.requirement, identifier, b.target, aliases, description, b.options⟩
  | .register (.trigger b) identifier aliases description =>
    some ⟨.trigger, identifier, b.target, aliases, description, b.options⟩
  | .unregister .. => none

def registrations (cs : List Change) : List ComponentInfo := cs.filterMap Change.info?

structure Told (infos : List ComponentInfo) (r : Registry) : Prop where
  actions : Shelf.Told infos .action r.actions
  requirements : Shelf.Told infos .requirement r.requirements
  triggers : Shelf.Told infos .trigger r.triggers
  count : r.nextSerial = infos.length

variable {infos : List ComponentInfo} {r : Registry} {cs : List Change} {kind : Kind}
  {name : String} {n : Nat}

theorem Told.apply (told : Told infos r) (c : Change) :
    Told (infos ++ c.info?.toList) (r.apply c) := by
  have count (info : ComponentInfo) : r.nextSerial + 1 = (infos ++ [info]).length := by
    rw [List.length_append, told.count, List.length_singleton]
  cases c with
  | register component identifier aliases description =>
    cases component with
    | action b =>
      exact ⟨told.actions.add (f := ⟨r.nextSerial, _, b.create⟩) told.count rfl,
        told.requirements.other nofun, told.triggers.other nofun, count _⟩
    | requirement b =>
      exact ⟨told.actions.other nofun,
        told.requirements.add (f := ⟨r.nextSerial, _, b.create⟩) told.count rfl,
        told.triggers.other nofun, count _⟩
    | trigger b =>
      exact ⟨told.actions.other nofun, told.requirements.other nofun,
        told.triggers.add (f := ⟨r.nextSerial, _, b.create⟩) told.count rfl, count _⟩
  | unregister kind identifier =>
    simp only [Change.info?, Option.toList_none, List.append_nil]
    cases kind with
    | action => exact ⟨told.actions.remove identifier, told.requirements, told.triggers, told.count⟩
    | requirement =>
      exact ⟨told.actions, told.requirements.remove identifier, told.triggers, told.count⟩
    | trigger =>
      exact ⟨told.actions, told.requirements, told.triggers.remove identifier, told.count⟩

theorem Told.applyAll (told : Told infos r) (cs : List Change) :
    Told (infos ++ registrations cs) (cs.foldl Registry.apply r) := by
  induction cs generalizing infos r with
  | nil => simpa [registrations] using told
  | cons c cs ih =>
    have rest := ih (told.apply c)
    rw [List.append_assoc] at rest
    have whole : c.info?.toList ++ registrations cs = registrations (c :: cs) := by
      rw [registrations, registrations, List.filterMap_cons]
      cases c.info? <;> rfl
    rwa [whole] at rest

theorem told_after (cs : List Change) : Told (registrations cs) (after cs) :=
  have start : Told [] empty := ⟨.empty, .empty, .empty, rfl⟩
  start.applyAll cs

theorem Told.resolved (told : Told infos r) (found : r.serial? kind name = some n) :
    ∃ info, infos[n]? = some info ∧ info.kind = kind ∧
      Shelf.keyOf name ∈ info.names.map Shelf.keyOf ∧
      (r.serial? kind info.identifier = some n ↔ ¬ Superseded infos n) := by
  cases kind with
  | action => exact told.actions.resolved found
  | requirement => exact told.requirements.resolved found
  | trigger => exact told.triggers.resolved found

theorem Told.isEmpty_iff (told : Told infos r) :
    r.isEmpty = true ↔ ∀ kind name n, r.serial? kind name = some n → Superseded infos n := by
  simp only [isEmpty, size, beq_iff_eq, Nat.add_eq_zero_iff, List.length_eq_zero_iff,
    told.actions.primaries_eq_nil_iff, told.requirements.primaries_eq_nil_iff,
    told.triggers.primaries_eq_nil_iff]
  constructor
  · rintro ⟨⟨actions, requirements⟩, triggers⟩ kind
    cases kind with
    | action => exact actions
    | requirement => exact requirements
    | trigger => exact triggers
  · intro all
    exact ⟨⟨all .action, all .requirement⟩, all .trigger⟩

theorem Told.added (told : Told infos r) {c : Change} {info : ComponentInfo}
    (is : c.info? = some info) (listed : name ∈ info.names) :
    (r.apply c).serial? info.kind name = some infos.length ↔
      Shelf.keyOf name = Shelf.keyOf info.identifier ∨ r.serial? info.kind name = none := by
  cases c with
  | unregister => cases is
  | register component identifier aliases description =>
    cases component <;> cases is
    · exact told.actions.added told.count listed
    · exact told.requirements.added told.count listed
    · exact told.triggers.added told.count listed

theorem nextSerial_apply (r : Registry) (c : Change) : r.nextSerial ≤ (r.apply c).nextSerial := by
  cases c with
  | register component => cases component <;> exact Nat.le_succ _
  | unregister kind => cases kind <;> exact Nat.le_refl _

theorem of_serial?_apply {c : Change} (found : (r.apply c).serial? kind name = some n) :
    r.serial? kind name = some n ∨ n = r.nextSerial := by
  cases c with
  | register component =>
    cases component <;> cases kind <;>
      first
      | exact .inl found
      | exact Shelf.serial_of_add found
  | unregister other =>
    cases other <;> cases kind <;>
      first
      | exact .inl found
      | exact .inl (Shelf.serial_of_remove found)

theorem gone_applyAll (absent : ∀ name, r.serial? kind name ≠ some n) (old : n < r.nextSerial)
    (cs : List Change) (name : String) : (cs.foldl apply r).serial? kind name ≠ some n := by
  induction cs generalizing r with
  | nil => exact absent name
  | cons c cs ih =>
    refine ih (fun name found => ?_) (Nat.lt_of_lt_of_le old (r.nextSerial_apply c))
    rcases of_serial?_apply found with found | same
    · exact absent name found
    · exact Nat.ne_of_lt old same

theorem serial?_unregister {identifier : String} (found : r.serial? kind identifier = some n)
    (name : String) : (r.apply (.unregister kind identifier)).serial? kind name ≠ some n := by
  cases kind with
  | action => exact Shelf.serial_remove found
  | requirement => exact Shelf.serial_remove found
  | trigger => exact Shelf.serial_remove found

structure Resolution (cs : List Change) : Prop where
  own : ∀ kind name n, (after cs).serial? kind name = some n →
    ∃ info, (registrations cs)[n]? = some info ∧ info.kind = kind ∧
      Shelf.keyOf name ∈ info.names.map Shelf.keyOf ∧
      ((after cs).serial? kind info.identifier = some n ↔ ¬ Superseded (registrations cs) n)
  /-- The newest registration has its identifier and those of its aliases that were free. -/
  newest : ∀ before c info, cs = before ++ [c] → c.info? = some info → ∀ name ∈ info.names,
    ((after cs).serial? info.kind name = some (registrations before).length ↔
      Shelf.keyOf name = Shelf.keyOf info.identifier ∨
        (after before).serial? info.kind name = none)
  /-- A registration that was removed has lost all its names for good. -/
  gone : ∀ before kind identifier later n, cs = before ++ .unregister kind identifier :: later →
    (after before).serial? kind identifier = some n →
      ∀ name, (after cs).serial? kind name ≠ some n
  empty : (after cs).isEmpty = true ↔
    ∀ kind name n, (after cs).serial? kind name = some n → Superseded (registrations cs) n

theorem after_resolution (cs : List Change) : Resolution cs where
  own _ _ _ found := (told_after cs).resolved found
  newest before c info is registers name listed := by
    rw [is, after, List.foldl_append]
    exact (told_after before).added registers listed
  gone before kind identifier later n is found := by
    have old : n < (after before).nextSerial := by
      obtain ⟨info, here, _⟩ := (told_after before).resolved found
      exact (told_after before).count ▸ (List.getElem?_eq_some_iff.mp here).1
    rw [is, after, List.foldl_append, List.foldl_cons]
    exact gone_applyAll (serial?_unregister found)
      (Nat.lt_of_lt_of_le old (nextSerial_apply ..)) later
  empty := (told_after cs).isEmpty_iff

/-- Another component under the same identifier and with the same alias. -/
def remade : List Change :=
  [.register (.action Catalogue.heal) "heal" ["cure"] none,
    .register (.action Catalogue.ping) "heal" ["cure"] none]

/-- The alias still leads to the component that was replaced, and to it alone once the other one is
removed and nothing is counted any more. -/
theorem remade_cure :
    ¬ (∀ name n, (after remade).serial? .action name = some n →
        ∃ info, (after remade).describe .action name = some info ∧
          (after remade).serial? .action info.identifier = some n) ∧
      (after remade).serial? .action "cure" = some 0 ∧
      (after remade).serial? .action "heal" = some 1 ∧
      (after (remade ++ [.unregister .action "heal"])).isEmpty = true ∧
      (after (remade ++ [.unregister .action "heal"])).serial? .action "cure" = some 0 := by
  have cure : (after remade).serial? .action "cure" = some 0 := by decide +kernel
  have heal : (after remade).serial? .action "heal" = some 1 := by decide +kernel
  refine ⟨fun all => ?_, cure, heal, by decide +kernel, by decide +kernel⟩
  obtain ⟨info, described, own⟩ := all "cure" 0 cure
  have identifier : ((after remade).describe .action "cure").map (·.identifier) = some "heal" := by
    decide +kernel
  rw [described, Option.map_some, Option.some.injEq] at identifier
  rw [identifier, heal] at own
  cases own

end Registry

end Cuescript
