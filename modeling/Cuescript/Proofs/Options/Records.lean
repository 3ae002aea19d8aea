import Cuescript.Catalogue.Actions
import Cuescript.Proofs.Options.Nesting

/-!
Schemas of records. The options of a record have their values under their keys and the parts are
numbered, so nothing but the keys can bring two of them together. Main statements: options of parts
at any depth are in place if the full keys differ and each level keeps what it has apart, as records
do; different keys alone do not see to it.
-/
namespace Cuescript.Options

namespace Record

variable {r r' : Record} {key key' value : String} {kind kind' : ValueKind} {i j : Nat}

def gathered (old : Option Json) (json : Json) : Json :=
  match old with
  | some (.array items) => .array (items ++ [json])
  | _ => .array [json]

def taken (kind : ValueKind) (old : Option Json) (value : String) : Reading (Option Json) :=
  (kind.read value).map fun json =>
    match kind with
    | .list => some (gathered old json)
    | _ => some json

def field (key : String) (kind : ValueKind) : Field Record :=
  ⟨fun r => r.values.lookup key, taken kind, write key kind⟩

theorem lookup_cons {α β : Type} [DecidableEq α] (k k' : α) (v : β) (rest : List (α × β)) :
    List.lookup k ((k', v) :: rest) = if k = k' then some v else rest.lookup k := by
  by_cases same : k = k'
  · simp [same]
  · have unlike : (k == k') = false := beq_eq_false_iff_ne.mpr same
    simp [List.lookup_cons, same, unlike]

theorem lookup_insertMember (key k : String) (json : Json) (members : List (String × Json)) :
    (Json.insertMember key json members).lookup k =
      if k = key then some json else members.lookup k := by
  induction members with
  | nil => rw [Json.insertMember, lookup_cons]
  | cons m rest ih =>
    obtain ⟨key', json'⟩ := m
    unfold Json.insertMember
    split
    · rw [lookup_cons]
    · split
      · rename_i same
        cases same
        rw [lookup_cons, lookup_cons]
        split <;> rfl
      · rename_i other
        rw [lookup_cons, lookup_cons, ih]
        split
        · rename_i here
          rw [if_neg fun there => other (there.symm.trans here)]
        · rfl

theorem lookup_putPart (i j : Nat) (p : Record) (parts : List (Nat × Record)) :
    (putPart i p parts).lookup j = if j = i then some p else parts.lookup j := by
  induction parts with
  | nil => rw [putPart, lookup_cons]
  | cons entry rest ih =>
    obtain ⟨i', p'⟩ := entry
    unfold putPart
    split
    · rename_i same
      cases same
      rw [lookup_cons, lookup_cons]
      split <;> rfl
    · rename_i other
      rw [lookup_cons, lookup_cons, ih]
      split
      · rename_i here
        rw [if_neg fun there => other (here.symm.trans there)]
      · rfl

theorem append_eq (r : Record) (key : String) (json : Json) :
    r.append key json = r.set key (gathered (r.values.lookup key) json) := by
  unfold append gathered
  cases r.values.lookup key with
  | none => rfl
  | some old => cases old <;> rfl

theorem field_write (written : (field key kind).write r value = (r', .ok ())) :
    ∃ json, r' = r.set key json ∧ taken kind (r.values.lookup key) value = .ok (some json) := by
  change write key kind r value = (r', .ok ()) at written
  unfold write at written
  split at written
  · obtain ⟨json, is, rfl⟩ := Write.of_accepted written
    exact ⟨_, append_eq r key json, by rw [taken, is]; rfl⟩
  · rename_i single
    obtain ⟨json, is, rfl⟩ := Write.of_accepted written
    refine ⟨json, rfl, ?_⟩
    rw [taken, is]
    cases kind with
    | list => exact absurd rfl single
    | _ => rfl

theorem part_holds (i : Nat) : (part i).Holds := by
  intro r p
  show ((putPart i p r.nested).lookup i).getD empty = p
  rw [lookup_putPart, if_pos rfl, Option.getD_some]

theorem field_stores (key : String) (kind : ValueKind) : (field key kind).Stores := by
  intro r value r' written
  obtain ⟨json, rfl, taken⟩ := field_write written
  show _ = Except.ok ((Json.insertMember key json r.values).lookup key)
  rw [lookup_insertMember, if_pos rfl]
  exact taken

theorem field_spares (other : key ≠ key') :
    (Cell.field (field key kind)).Spares (.field (field key' kind')) := by
  rintro r r' ⟨value, written⟩
  obtain ⟨json, rfl, _⟩ := field_write written
  exact (lookup_insertMember key key' json r.values).trans (if_neg other.symm)

theorem field_part_apart (key : String) (kind : ValueKind) (i : Nat) :
    (Cell.field (field key kind)).Apart (.part (part i)) where
  one r r' written := by
    obtain ⟨value, written⟩ := written
    obtain ⟨json, rfl, _⟩ := field_write written
    rfl
  other r r' written := by
    obtain ⟨p, rfl⟩ := written
    rfl

theorem part_spares (other : i ≠ j) : (Cell.part (part i)).Spares (.part (part j)) := by
  refine Cell.part_spares fun r p => ?_
  exact congrArg (·.getD empty) ((lookup_putPart i j p r.nested).trans (if_neg other.symm))

end Record

namespace Build

def ofSteps (b : Build Record) (parts : Nat) : List SchemaStep → Build Record
  | [] => b
  | .option key kind :: rest => ofSteps (b.option key (Record.field key kind)) parts rest
  | .position n :: rest => ofSteps (b.position n) parts rest
  | .required :: rest => ofSteps b.required parts rest
  | .description text :: rest => ofSteps (b.description text) parts rest
  | .nest label steps :: rest =>
    ofSteps (b.nest label (Record.part parts) (ofSteps empty 0 steps)) (parts + 1) rest

theorem ofSteps_schema (b : Build Record) (parts : Nat) (steps : List SchemaStep) :
    (ofSteps b parts steps).schema = Schema.ofSteps b.schema parts steps := by
  fun_induction ofSteps b parts steps with
  | case1 => rw [Schema.ofSteps]
  | case2 b parts key kind rest ih => rw [Schema.ofSteps, ih]; rfl
  | case3 b parts n rest ih => rw [Schema.ofSteps, ih]; rfl
  | case4 b parts rest ih => rw [Schema.ofSteps, ih]; rfl
  | case5 b parts text rest ih => rw [Schema.ofSteps, ih]; rfl
  | case6 b parts label steps rest inner ih =>
    rw [Schema.ofSteps, ih, schema, inner]
    rfl

/-- The cells of a record with this many parts are those of its keys and of the parts. -/
structure Numbered (b : Build Record) (parts : Nat) : Prop where
  cells : ∀ a ∈ b.cells, (∃ key ∈ b.keys, ∃ kind, a = .field (Record.field key kind)) ∨
    ∃ i < parts, a = .part (Record.part i)
  sound : b.keys.Nodup → b.Sound

variable {b : Build Record} {parts : Nat}

theorem Numbered.option (numbered : b.Numbered parts) (key : String) (kind : ValueKind) :
    (b.option key (Record.field key kind)).Numbered parts where
  cells a member := by
    rw [keys_option]
    rcases List.mem_append.mp member with old | new
    · rcases numbered.cells a old with ⟨key', known, field⟩ | part
      · exact .inl ⟨key', List.mem_append_left _ known, field⟩
      · exact .inr part
    · exact .inl ⟨key, List.mem_append_right _ List.mem_cons_self, kind, List.mem_singleton.mp new⟩
  sound distinct := by
    rw [keys_option, List.nodup_append] at distinct
    obtain ⟨old, _, new⟩ := distinct
    refine ⟨numbered.sound old, Record.field_stores key kind, fun a member => ?_⟩
    rcases numbered.cells a member with ⟨key', known, kind', rfl⟩ | ⟨i, _, rfl⟩
    · have other := new key' known key List.mem_cons_self
      exact ⟨Record.field_spares other, Record.field_spares other.symm⟩
    · exact (Record.field_part_apart key kind i).symm

theorem Numbered.nest {part : Build Record} {n : Nat} (numbered : b.Numbered parts)
    (inner : part.Numbered n) (label : String) :
    (b.nest label (Record.part parts) part).Numbered (parts + 1) where
  cells a member := by
    rw [keys_nest]
    rcases List.mem_append.mp member with old | new
    · rcases numbered.cells a old with ⟨key, known, field⟩ | ⟨i, less, part⟩
      · exact .inl ⟨key, List.mem_append_left _ known, field⟩
      · exact .inr ⟨i, Nat.lt_succ_of_lt less, part⟩
    · exact .inr ⟨parts, Nat.lt_succ_self parts, List.mem_singleton.mp new⟩
  sound distinct := by
    rw [keys_nest, List.nodup_append] at distinct
    obtain ⟨old, new, _⟩ := distinct
    refine ⟨numbered.sound old, inner.sound ?_, Record.part_holds parts, fun a member => ?_⟩
    · exact (List.pairwise_map.mp new).imp fun apart same => apart (congrArg _ same)
    · rcases numbered.cells a member with ⟨key, _, kind, rfl⟩ | ⟨i, less, rfl⟩
      · exact Record.field_part_apart key kind parts
      · exact ⟨Record.part_spares (Nat.ne_of_lt less), Record.part_spares (Nat.ne_of_gt less)⟩

theorem Numbered.remark {b' : Build Record} (numbered : b.Numbered parts)
    (cells : b'.cells = b.cells) (keys : b'.keys = b.keys) (sound : b.Sound → b'.Sound) :
    b'.Numbered parts where
  cells := by rw [cells, keys]; exact numbered.cells
  sound := by rw [keys]; exact fun distinct => sound (numbered.sound distinct)

theorem ofSteps_numbered (steps : List SchemaStep) (numbered : b.Numbered parts) :
    ∃ n, (ofSteps b parts steps).Numbered n := by
  have same (l : List (Declared Record)) (f : Remarks → Remarks) :=
    map_modifyLast Declared.fullKey (fun _ _ => rfl) l f
  fun_induction ofSteps b parts steps with
  | case1 => exact ⟨_, numbered⟩
  | case2 b parts key kind rest ih => exact ih (numbered.option key kind)
  | case3 b parts n rest ih => exact ih (numbered.remark rfl (same ..) id)
  | case4 b parts rest ih => exact ih (numbered.remark rfl (same ..) id)
  | case5 b parts text rest ih => exact ih (numbered.remark rfl (same ..) id)
  | case6 b parts label steps rest inner ih =>
    obtain ⟨n, within⟩ := inner ⟨nofun, fun _ => trivial⟩
    exact ih (numbered.nest within label)

theorem ofSteps_sound (steps : List SchemaStep)
    (clear : (ofSteps empty 0 steps).schema.Unambiguous) : (ofSteps empty 0 steps).Sound := by
  have start : (empty : Build Record).Numbered 0 := ⟨nofun, fun _ => trivial⟩
  obtain ⟨n, numbered⟩ := ofSteps_numbered steps start
  exact numbered.sound ((unambiguous_iff.mp clear).imp fun apart same =>
    apart (congrArg normalizeKey same))

/-- Options of parts at any depth are in place if their full keys differ, provided that at each level
they are kept apart; records keep them apart. The positions of a part are left behind. -/
theorem options_inPlace :
    (∀ (γ : Type) (b : Build γ), b.Sound → b.schema.Unambiguous → b.InPlace) ∧
      (∀ steps, (Schema.ofSteps .empty 0 steps).Unambiguous →
        (ofSteps empty 0 steps).schema = Schema.ofSteps .empty 0 steps ∧
          (ofSteps empty 0 steps).InPlace) ∧
      ∀ (γ δ : Type) (s : Schema γ) (label : String) (place : Place γ δ) (part : Schema δ),
        (s.nest label place part).positional = s.positional := by
  refine ⟨fun γ b sound clear => sound.inPlace clear, fun steps clear => ?_,
    fun γ δ s label place part => s.positional_nest label place part⟩
  have same : (ofSteps empty 0 steps).schema = Schema.ofSteps .empty 0 steps := ofSteps_schema ..
  rw [← same] at clear
  exact ⟨same, (ofSteps_sound steps clear).inPlace clear⟩

open Catalogue

def location : Build Location :=
  empty
    |>.option "x" (.of (readSigned 64) ⟨Location.x, fun l n => { l with x := n }⟩)
    |>.required
    |>.option "y" (.of (readSigned 64) ⟨Location.y, fun l n => { l with y := n }⟩)
    |>.position 0

def first {γ δ : Type} : Place (γ × δ) γ := ⟨Prod.fst, fun pair left => (left, pair.2)⟩

def second {γ δ : Type} : Place (γ × δ) δ := ⟨Prod.snd, fun pair right => (pair.1, right)⟩

def trip : Build (String × Location × Location) :=
  empty
    |>.option "name" (.of .ok first)
    |>.position 0
    |>.nest "route" second
      (empty |>.nest "from" first location |>.nest "to" second location)

theorem location_schema : location.schema = Location.schema := by
  unfold location Location.schema
  simp only [schema]
  rfl

theorem location_sound : location.Sound := by
  refine ⟨⟨trivial, Field.of_stores fun _ _ => rfl, nofun⟩, Field.of_stores fun _ _ => rfl, ?_⟩
  intro a member
  cases List.mem_singleton.mp member
  constructor <;> rintro l l' ⟨value, written⟩ <;>
    obtain ⟨n, _, rfl⟩ := Write.of_accepted written <;> rfl

theorem first_apart_second {γ δ : Type} :
    (Cell.part (first : Place (γ × δ) γ)).Apart (.part second) :=
  ⟨Cell.part_spares fun _ _ => rfl, Cell.part_spares fun _ _ => rfl⟩

theorem trip_sound : trip.Sound := by
  refine ⟨⟨trivial, Field.of_stores fun _ _ => rfl, nofun⟩, ?_, fun _ _ => rfl, ?_⟩
  · refine ⟨⟨trivial, location_sound, fun _ _ => rfl, nofun⟩, location_sound, fun _ _ => rfl, ?_⟩
    intro a member
    cases List.mem_singleton.mp member
    exact first_apart_second
  · intro a member
    cases List.mem_singleton.mp member
    exact first_apart_second.inside (Cell.inside_of ..) (.refl _)

theorem trip_unambiguous : trip.schema.Unambiguous := by
  have keys : trip.keys =
      ["name", "route.from.x", "route.from.y", "route.to.x", "route.to.y"] := rfl
  rw [unambiguous_iff, keys]
  decide +kernel

def camp : List SchemaStep :=
  [.option "name" .trimmed, .position 0,
    .nest "spawn" [.option "x" (.signed 64), .position 0, .required,
      .nest "facing" [.option "yaw" (.natural 32)]],
    .description "where the camp looks"]

theorem camp_unambiguous : (Schema.ofSteps .empty 0 camp).Unambiguous := by
  have keys : (ofSteps empty 0 camp).keys = ["name", "spawn.x", "spawn.facing.yaw"] := by
    simp only [camp, ofSteps]
    rfl
  have same : (ofSteps empty 0 camp).schema = Schema.ofSteps .empty 0 camp := ofSteps_schema ..
  rw [← same, unambiguous_iff, keys]
  decide +kernel

theorem trip_inPlace : trip.Sound ∧ trip.schema.Unambiguous ∧
    (∀ t : String × Location × Location, ∃ o, trip.options[3]? = some o ∧
      trip.Takes 3 o "Route.To.X" "7" t (t.1, t.2.1, { t.2.2 with x := 7 })) ∧
    (Schema.ofSteps .empty 0 camp).Unambiguous ∧ (ofSteps empty 0 camp).InPlace := by
  obtain ⟨general, steps, _⟩ := options_inPlace
  refine ⟨trip_sound, trip_unambiguous, fun t => ?_, camp_unambiguous,
    (steps camp camp_unambiguous).2⟩
  refine ⟨_, rfl, ?_⟩
  exact (general _ trip trip_sound trip_unambiguous).takes 3 _ rfl "Route.To.X" "7" t ⟨7, t.2.2.y⟩
    (by decide +kernel) rfl

/-- The keys of the options differ, and still an option is not in place. -/
structure Astray {γ : Type} (b : Build γ) : Prop where
  clear : b.schema.Unambiguous
  lost : ¬ b.InPlace

def shared : Build Nat :=
  empty |>.option "a" (.of (readNat 32) .whole) |>.option "b" (.of (readNat 32) .whole)

def twice : Build (Location × Nat) :=
  empty |>.nest "p" first location |>.nest "q" first location

/-- An option that accepts every text and stores none. -/
def deaf : Build String :=
  empty |>.option "a" ⟨id, fun _ text => .ok text, fun config _ => (config, .ok ())⟩

/-- The first number as long as it is zero, and the second one after that. -/
def drift : Place (Nat × Nat) Nat :=
  ⟨fun c => if c.1 = 0 then c.1 else c.2, fun c n => if c.1 = 0 then (n, c.2) else (c.1, n)⟩

def drifting : Build (Nat × Nat) :=
  empty |>.nest "p" drift (empty |>.option "n" (.of (readNat 32) .whole))

def crowded : List SchemaStep :=
  [.option "a" .string, .position 0, .option "b" .string, .position 0]

theorem shared_astray : shared.Astray where
  clear := by
    rw [unambiguous_iff, show shared.keys = ["a", "b"] from rfl]
    decide +kernel
  lost inPlace := by
    have takes := inPlace.takes 0 _ rfl "a" "7" 0 (7 : Nat) rfl (by rfl)
    have other : (7 : Nat) = 0 := takes.others 1 _ rfl (by decide)
    cases other

theorem twice_astray : twice.Astray where
  clear := by
    rw [unambiguous_iff, show twice.keys = ["p.x", "p.y", "q.x", "q.y"] from rfl]
    decide +kernel
  lost inPlace := by
    have takes := inPlace.takes 0 _ rfl "p.x" "7" (⟨0, 0⟩, 0) (⟨7, 0⟩ : Location) rfl (by rfl)
    have other : (7 : Int) = 0 := takes.others 2 _ rfl (by decide)
    cases other

theorem deaf_astray : deaf.Astray where
  clear := List.pairwise_singleton _ _
  lost inPlace := by
    have takes := inPlace.takes 0 _ rfl "a" "7" "" "" rfl (by rfl)
    have stored : (.ok "7" : Reading String) = .ok "" := takes.stored
    exact absurd (Except.ok.inj stored) (by decide)

theorem drifting_astray : drifting.Astray where
  clear := List.pairwise_singleton _ _
  lost inPlace := by
    have takes := inPlace.takes 0 _ rfl "p.n" "7" (0, 0) (7 : Nat) rfl (by rfl)
    have home : ((7 : Nat), (.ok () : Reading Unit)) = (0, .ok ()) := takes.home
    exact absurd (congrArg Prod.fst home) (by decide)

def firstText (key : String) : Decl Record :=
  ⟨key, some 0, false, none, Record.write key .string⟩

theorem crowded_decls :
    (Schema.ofSteps .empty 0 crowded).decls = [firstText "a", firstText "b"] := by
  simp only [crowded, Schema.ofSteps]
  rfl

/-- Different keys are not enough, be it that two options have one field, that a part is nested
twice, that a value is accepted and not stored, or that an accessor leads elsewhere afterwards. Where
two options share a position nothing is stored at all. -/
theorem unambiguous_not_inPlace :
    ¬ (∀ (γ : Type) (b : Build γ), b.schema.Unambiguous → b.InPlace) ∧
      (shared.Astray ∧ twice.Astray ∧ deaf.Astray ∧ drifting.Astray) ∧
      (Schema.ofSteps .empty 0 crowded).Unambiguous ∧
        tokenize? "a=xx" = some [⟨some "a", .equals, "xx"⟩] ∧
        (Schema.ofSteps .empty 0 crowded).apply .empty "a=xx" =
          ⟨.empty, some (.duplicatePosition 0 "a" "b")⟩ := by
  have clear : (Schema.ofSteps .empty 0 crowded).Unambiguous := by
    rw [Schema.Unambiguous, crowded_decls]
    decide +kernel
  have together : Shared (Schema.ofSteps .empty 0 crowded).decls 0 (firstText "a")
      (firstText "b") := by
    rw [crowded_decls]
    exact ⟨⟨[], rfl⟩, fun q less => absurd less (Nat.not_lt_zero q)⟩
  refine ⟨fun all => shared_astray.lost (all _ _ shared_astray.clear),
    ⟨shared_astray, twice_astray, deaf_astray, drifting_astray⟩, clear, by decide +kernel, ?_⟩
  rw [Schema.apply, Schema.clash?_of_shared together]
  rfl

end Build

end Cuescript.Options
