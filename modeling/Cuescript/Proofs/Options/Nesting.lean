import Mathlib.Data.List.Basic
import Mathlib.Data.List.ModifyLast
import Cuescript.Proofs.Options.Applications
import Cuescript.Proofs.Options.Fields

/-!
Schemas that embed the schemas of parts, at any depth. The calls that build a schema form a tree;
each option has the labels of the parts around it, the place that the accessors lead to, and what
the calls of each level tell of it. Main statement: a named value goes to the option of that full
key, is stored in its place and leaves the values of all other options as they are.
-/
namespace Cuescript.Options

variable {γ δ : Type}

structure Remarks where
  position : Option Nat
  required : Bool
  description : Option String

def Remarks.none : Remarks := ⟨.none, false, .none⟩

/-- A declared option of a config or of one of its parts: the labels of the parts around it and the
place that they lead to, its key and field there, and what is told of it, by the calls of the
config's own level and by those of each level further in. -/
structure Declared (γ : Type) where
  labels : List String
  key : String
  {Home : Type}
  place : Place γ Home
  field : Field Home
  remarks : Remarks
  inner : List Remarks

namespace Declared

def fullKey (o : Declared γ) : String := o.labels.foldr (fun label key => label ++ "." ++ key) o.key

def value (o : Declared γ) (config : γ) : o.field.Value := o.field.view (o.place.get config)

def whole (o : Declared γ) : Field γ := o.field.within o.place

def decl (o : Declared γ) : Decl γ where
  key := o.fullKey
  position := o.remarks.position
  required := (o.remarks :: o.inner).any (·.required)
  description := (o.remarks :: o.inner).findSome? (·.description)
  write := o.whole.write

def own (key : String) (f : Field γ) : Declared γ := ⟨[], key, .whole, f, .none, []⟩

def embedded (label : String) (place : Place γ δ) (o : Declared δ) : Declared γ where
  labels := label :: o.labels
  key := o.key
  place := place.into o.place
  field := o.field
  remarks := .none
  inner := o.remarks :: o.inner

def remark (f : Remarks → Remarks) (o : Declared γ) : Declared γ :=
  { o with remarks := f o.remarks }

end Declared

/-- The calls that build a schema, the last one outermost. -/
inductive Build : Type → Type 1
  | empty {γ : Type} : Build γ
  | option {γ : Type} (before : Build γ) (key : String) (f : Field γ) : Build γ
  | position {γ : Type} (before : Build γ) (n : Nat) : Build γ
  | required {γ : Type} (before : Build γ) : Build γ
  | description {γ : Type} (before : Build γ) (text : String) : Build γ
  | nest {γ δ : Type} (before : Build γ) (label : String) (place : Place γ δ) (part : Build δ) :
    Build γ

namespace Build

def schema {γ : Type} : Build γ → Schema γ
  | empty => .empty
  | option before key f => before.schema.option key f.write
  | position before n => before.schema.atPosition n
  | required before => before.schema.require
  | description before text => before.schema.describe text
  | nest before label place part => before.schema.nest label place part.schema

def options {γ : Type} : Build γ → List (Declared γ)
  | empty => []
  | option before key f => before.options ++ [.own key f]
  | position before n => before.options.modifyLast (.remark ({ · with position := some n }))
  | required before => before.options.modifyLast (.remark ({ · with required := true }))
  | description before text =>
    before.options.modifyLast (.remark ({ · with description := some text }))
  | nest before label place part => before.options ++ part.options.map (.embedded label place)

def cells {γ : Type} : Build γ → List (Cell γ)
  | empty => []
  | option before _ f => before.cells ++ [.field f]
  | position before _ | required before | description before _ => before.cells
  | nest before _ place _ => before.cells ++ [.part place]

/-- At each level, the options and the parts have cells of their own. -/
def Sound {γ : Type} : Build γ → Prop
  | empty => True
  | option before _ f => before.Sound ∧ f.Stores ∧ ∀ a ∈ before.cells, a.Apart (.field f)
  | position before _ | required before | description before _ => before.Sound
  | nest before _ place part =>
    before.Sound ∧ part.Sound ∧ place.Holds ∧ ∀ a ∈ before.cells, a.Apart (.part place)

section Listing

variable {s : Schema γ} {l : List (Declared γ)} {f : Remarks → Remarks} {P : Declared γ → Prop}

theorem modifyLast_decls {g : Decl γ → Decl γ} (is : s.decls = l.map Declared.decl)
    (same : ∀ o : Declared γ, (o.remark f).decl = g o.decl) :
    (s.modifyLast g).decls = (l.modifyLast (.remark f)).map Declared.decl := by
  unfold Schema.modifyLast
  rcases l.eq_nil_or_concat' with rfl | ⟨l, o, rfl⟩
  · rw [is]
    exact is
  · rw [is, List.modifyLast_concat]
    simp [same]

theorem map_modifyLast {α : Type*} (g : Declared γ → α)
    (same : ∀ (f : Remarks → Remarks) (o : Declared γ), g (o.remark f) = g o)
    (l : List (Declared γ)) (f : Remarks → Remarks) :
    (l.modifyLast (.remark f)).map g = l.map g := by
  rcases l.eq_nil_or_concat' with rfl | ⟨l, o, rfl⟩
  · rfl
  · rw [List.modifyLast_concat]
    simp [same]

theorem forall_modifyLast (all : ∀ o ∈ l, P o) (kept : ∀ o, P o → P (o.remark f)) :
    ∀ o ∈ l.modifyLast (.remark f), P o := by
  rcases l.eq_nil_or_concat' with rfl | ⟨l, o, rfl⟩
  · exact all
  · rw [List.modifyLast_concat]
    intro o' member
    rcases List.mem_append.mp member with old | new
    · exact all o' (List.mem_append_left _ old)
    · cases List.mem_singleton.mp new
      exact kept o (all o (List.mem_append_right _ List.mem_cons_self))

theorem schema_decls (b : Build γ) : b.schema.decls = b.options.map Declared.decl := by
  induction b with
  | empty => rfl
  | option before key f ih =>
    rw [schema, options, Schema.option, ih, List.map_append]
    rfl
  | position before n ih => exact modifyLast_decls ih fun _ => rfl
  | required before ih => exact modifyLast_decls ih fun _ => rfl
  | description before text ih => exact modifyLast_decls ih fun _ => rfl
  | nest before label place part ih inner =>
    rw [schema, options, Schema.nest, ih, inner, List.map_append, List.map_map, List.map_map]
    rfl

/-- An option lies in a cell of the config's own level, however deep it was declared. -/
theorem exists_cell (b : Build γ) :
    ∀ f ∈ b.options.map Declared.whole, ∃ a ∈ b.cells, (Cell.field f).Inside a := by
  induction b with
  | empty => exact nofun
  | option before key f ih =>
    intro f' member
    rw [options, List.map_append] at member
    rcases List.mem_append.mp member with old | new
    · obtain ⟨a, known, inside⟩ := ih f' old
      exact ⟨a, List.mem_append_left _ known, inside⟩
    · cases List.mem_singleton.mp new
      exact ⟨.field f, List.mem_append_right _ List.mem_cons_self, .refl _⟩
  | position before n ih | required before ih | description before text ih =>
    rw [options, map_modifyLast Declared.whole fun _ _ => rfl]
    exact ih
  | nest before label place part ih =>
    intro f' member
    rw [options, List.map_append] at member
    rcases List.mem_append.mp member with old | new
    · obtain ⟨a, known, inside⟩ := ih f' old
      exact ⟨a, List.mem_append_left _ known, inside⟩
    · rw [List.map_map] at new
      obtain ⟨o, _, rfl⟩ := List.mem_map.mp new
      exact ⟨.part place, List.mem_append_right _ List.mem_cons_self,
        Cell.inside_part place o.whole⟩

theorem Sound.pairwise {b : Build γ} (sound : b.Sound) :
    (b.options.map Declared.whole).Pairwise fun f f' => (Cell.field f).Apart (.field f') := by
  induction b with
  | empty => exact .nil
  | option before key f ih =>
    obtain ⟨sound, _, apart⟩ := sound
    rw [options, List.map_append, List.pairwise_append]
    refine ⟨ih sound, List.pairwise_singleton _ _, fun f' old f'' new => ?_⟩
    cases List.mem_singleton.mp new
    obtain ⟨a, known, inside⟩ := exists_cell before f' old
    exact (apart a known).inside inside (.refl _)
  | position before n ih | required before ih | description before text ih =>
    rw [options, map_modifyLast Declared.whole fun _ _ => rfl]
    exact ih sound
  | nest before label place part ih inner =>
    obtain ⟨sound, within, holds, apart⟩ := sound
    rw [options, List.map_append, List.map_map, List.pairwise_append]
    -- The options of the part are apart in it; the older ones are apart from all of the part.
    refine ⟨ih sound, ?_, fun f old f' new => ?_⟩
    · have parts := inner within
      rw [List.pairwise_map] at parts ⊢
      exact parts.imp fun apart => apart.within holds
    · obtain ⟨a, known, inside⟩ := exists_cell before f old
      obtain ⟨o, _, rfl⟩ := List.mem_map.mp new
      exact (apart a known).inside inside (Cell.inside_part place o.whole)

theorem Sound.holds {b : Build γ} (sound : b.Sound) :
    ∀ o ∈ b.options, o.place.Holds ∧ o.field.Stores := by
  induction b with
  | empty => exact nofun
  | option before key f ih =>
    obtain ⟨sound, stores, _⟩ := sound
    intro o member
    rcases List.mem_append.mp member with old | new
    · exact ih sound o old
    · cases List.mem_singleton.mp new
      exact ⟨fun _ _ => rfl, stores⟩
  | position before n ih | required before ih | description before text ih =>
    exact forall_modifyLast (ih sound) fun _ => id
  | nest before label place part ih inner =>
    obtain ⟨sound, within, holds, _⟩ := sound
    intro o member
    rcases List.mem_append.mp member with old | new
    · exact ih sound o old
    · obtain ⟨o, known, rfl⟩ := List.mem_map.mp new
      obtain ⟨held, stores⟩ := inner within o known
      exact ⟨holds.into held, stores⟩

end Listing

end Build

section Naming

variable {s : Schema γ} {d : Decl γ} {slots : List (Decl γ)} {seen : List String}
  {key value : String} {separator : Separator} {config config' : γ}

/-- No two options have one key, however it is spelled. -/
def Schema.Unambiguous (s : Schema γ) : Prop :=
  s.decls.Pairwise fun d e => normalizeKey d.key ≠ normalizeKey e.key

theorem Schema.Unambiguous.find? (clear : s.Unambiguous) (declared : d ∈ s.decls)
    (spells : normalizeKey key = normalizeKey d.key) : s.find? key = some d := by
  obtain ⟨n, is⟩ := List.getElem?_of_mem declared
  refine find?_iff.mpr ⟨n, is, ⟨d, is, spells.symm⟩, fun m less e there => ?_⟩
  obtain ⟨inside, rfl⟩ := List.getElem?_eq_some_iff.mp is
  obtain ⟨_, rfl⟩ := List.getElem?_eq_some_iff.mp there
  rw [spells]
  exact List.pairwise_iff_getElem.mp clear m n _ inside less

theorem Schema.Unambiguous.applyTokens (clear : s.Unambiguous) (declared : d ∈ s.decls)
    (spells : normalizeKey key = normalizeKey d.key)
    (written : d.write config value = (config', .ok ())) (rest : List Token) :
    s.applyTokens slots seen config (⟨some key, separator, value⟩ :: rest) =
      s.applyTokens slots (d.key :: seen) config' rest := by
  rw [Schema.applyTokens, destination]
  simp only [clear.find? declared spells, written]
  rfl

theorem Schema.Unambiguous.apply (clear : s.Unambiguous) (declared : d ∈ s.decls)
    (spells : normalizeKey key = normalizeKey d.key)
    (written : d.write config value = (config', .ok ())) (distinct : s.Distinct) {text : String}
    (cut : tokenize? text = some [⟨some key, separator, value⟩]) :
    (s.apply config text).config = config' := by
  rw [Schema.apply, clash?_of_distinct distinct, cut]
  show (s.applyTokens s.positional [] config [⟨some key, separator, value⟩]).config = config'
  rw [clear.applyTokens declared spells written]
  rfl

end Naming

theorem Schema.positional_nest (s : Schema γ) (label : String) (place : Place γ δ)
    (part : Schema δ) : (s.nest label place part).positional = s.positional := by
  have none : (part.decls.map (embedded label place)).filter (·.position.isSome) = [] := by
    refine List.filter_eq_nil_iff.mpr fun d member => ?_
    obtain ⟨_, _, rfl⟩ := List.mem_map.mp member
    exact Bool.false_ne_true
  rw [positional, nest, List.filter_append, none, List.append_nil, positional]

namespace Build

/-- A named value for option `n`: the token writes it, it is stored in the place of the option, and
no other option has another value afterwards. -/
structure Takes (b : Build γ) (n : Nat) (o : Declared γ) (key value : String)
    (config config' : γ) : Prop where
  token : ∀ separator slots seen rest,
    b.schema.applyTokens slots seen config (⟨some key, separator, value⟩ :: rest) =
      b.schema.applyTokens slots (o.fullKey :: seen) config' rest
  text : ∀ separator text, b.schema.Distinct →
    tokenize? text = some [⟨some key, separator, value⟩] →
      (b.schema.apply config text).config = config'
  home : o.field.write (o.place.get config) value = (o.place.get config', .ok ())
  stored : o.field.take (o.value config) value = .ok (o.value config')
  others : ∀ m o', b.options[m]? = some o' → m ≠ n → o'.value config' = o'.value config

/-- The declarations are those of the listed options, and each takes the values it is given. -/
structure InPlace (b : Build γ) : Prop where
  decls : b.schema.decls = b.options.map Declared.decl
  takes : ∀ n o, b.options[n]? = some o → ∀ key value config part,
    normalizeKey key = normalizeKey o.fullKey →
    o.field.write (o.place.get config) value = (part, .ok ()) →
      b.Takes n o key value config (o.place.put config part)

theorem Sound.others {b : Build γ} {m n : Nat} {o o' : Declared γ} {config config' : γ}
    {value : String} (sound : b.Sound) (is : b.options[n]? = some o)
    (other : b.options[m]? = some o') (apart : m ≠ n)
    (written : o.whole.write config value = (config', .ok ())) :
    o'.value config' = o'.value config := by
  have cells := List.pairwise_map.mp sound.pairwise
  obtain ⟨inside, rfl⟩ := List.getElem?_eq_some_iff.mp is
  obtain ⟨within, rfl⟩ := List.getElem?_eq_some_iff.mp other
  rcases Nat.lt_or_gt_of_ne apart with before | behind
  · exact (List.pairwise_iff_getElem.mp cells m n within inside before).other _ _
      ⟨value, written⟩
  · exact (List.pairwise_iff_getElem.mp cells n m inside within behind).one _ _
      ⟨value, written⟩

theorem Sound.inPlace {b : Build γ} (sound : b.Sound) (clear : b.schema.Unambiguous) :
    b.InPlace := by
  refine ⟨b.schema_decls, fun n o is key value config part spells written => ?_⟩
  have member := List.mem_of_getElem? is
  have declared : o.decl ∈ b.schema.decls := by
    rw [schema_decls]
    exact List.mem_map_of_mem member
  obtain ⟨holds, stores⟩ := sound.holds o member
  have whole : o.whole.write config value = (o.place.put config part, .ok ()) := by
    simp only [Declared.whole, Field.within, Write.within, written]
  exact {
    token := fun separator slots seen rest => clear.applyTokens declared spells whole rest
    text := fun separator text distinct cut => clear.apply declared spells whole distinct cut
    home := by rw [holds, written]
    stored := stores.within holds config value _ whole
    others := fun m o' other apart => sound.others is other apart whole }

def keys (b : Build γ) : List String := b.options.map Declared.fullKey

theorem keys_option (b : Build γ) (key : String) (f : Field γ) :
    (b.option key f).keys = b.keys ++ [key] := List.map_append

theorem keys_nest (b : Build γ) (label : String) (place : Place γ δ) (part : Build δ) :
    (b.nest label place part).keys = b.keys ++ part.keys.map (label ++ "." ++ ·) := by
  rw [keys, options, List.map_append, List.map_map, keys, keys, List.map_map]
  rfl

theorem unambiguous_iff {b : Build γ} : b.schema.Unambiguous ↔
    b.keys.Pairwise fun key key' => normalizeKey key ≠ normalizeKey key' := by
  rw [Schema.Unambiguous, schema_decls, List.pairwise_map, keys, List.pairwise_map]
  rfl

end Build

end Cuescript.Options
