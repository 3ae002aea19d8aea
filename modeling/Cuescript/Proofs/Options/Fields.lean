import Cuescript.Options.Schema

/-!
What a config is made of, as its options see it: fields with a value of their own, and parts. A
part of a part has a place in the whole, and a field of a part is a field of the whole. Main
statement: cells that are apart stay apart when they are looked at from further out.
-/
namespace Cuescript.Options

variable {γ δ ε : Type}

namespace Place

def whole : Place γ γ := ⟨id, fun _ config => config⟩

def into (outer : Place γ δ) (inner : Place δ ε) : Place γ ε where
  get config := inner.get (outer.get config)
  put config part := outer.put config (inner.put (outer.get config) part)

def Holds (place : Place γ δ) : Prop := ∀ config part, place.get (place.put config part) = part

theorem Holds.into {outer : Place γ δ} {inner : Place δ ε} (holds : outer.Holds)
    (within : inner.Holds) : (outer.into inner).Holds := by
  intro config part
  show inner.get (outer.get (outer.put config _)) = part
  rw [holds, within]

end Place

theorem Write.of_accepted {α : Type} {read : String → Reading α} {put : γ → α → γ}
    {config config' : γ} {value : String}
    (accepted : Write.of read put config value = (config', .ok ())) :
    ∃ a, read value = .ok a ∧ config' = put config a := by
  unfold Write.of at accepted
  split at accepted
  · cases accepted
    exact ⟨_, ‹_›, rfl⟩
  · cases accepted

/-- An option in the config that declares it: its value there, what a text makes of the value, and
the write. -/
structure Field (γ : Type) where
  {Value : Type}
  view : γ → Value
  take : Value → String → Reading Value
  write : Write γ

namespace Field

def of {α : Type} (read : String → Reading α) (place : Place γ α) : Field γ :=
  ⟨place.get, fun _ => read, Write.of read place.put⟩

def within (place : Place γ δ) (f : Field δ) : Field γ :=
  ⟨fun config => f.view (place.get config), f.take, f.write.within place⟩

def Stores (f : Field γ) : Prop :=
  ∀ config value config', f.write config value = (config', .ok ()) →
    f.take (f.view config) value = .ok (f.view config')

theorem within_write {place : Place γ δ} {f : Field δ} {config config' : γ} {value : String}
    (written : (f.within place).write config value = (config', .ok ())) :
    ∃ part, f.write (place.get config) value = (part, .ok ()) ∧
      config' = place.put config part := by
  cases there : f.write (place.get config) value with
  | mk part result =>
    have whole : (f.within place).write config value = (place.put config part, result) := by
      simp only [within, Write.within, there]
    cases whole.symm.trans written
    exact ⟨part, rfl, rfl⟩

theorem Stores.within {place : Place γ δ} {f : Field δ} (stores : f.Stores)
    (holds : place.Holds) : (f.within place).Stores := by
  intro config value config' written
  obtain ⟨part, there, rfl⟩ := within_write written
  show f.take _ value = .ok (f.view (place.get (place.put config part)))
  rw [holds]
  exact stores _ value part there

theorem of_stores {α : Type} {read : String → Reading α} {place : Place γ α}
    (holds : place.Holds) : (of read place).Stores := by
  intro config value config' written
  obtain ⟨a, is, rfl⟩ := Write.of_accepted written
  show read value = .ok (place.get (place.put config a))
  rw [is, holds]

end Field

/-- What a config has at one level: options of its own and parts with options of theirs. -/
inductive Cell (γ : Type) : Type 1
  | field (f : Field γ)
  | part {δ : Type} (place : Place γ δ)

namespace Cell

def Same (config config' : γ) : Cell γ → Prop
  | field f => f.view config' = f.view config
  | part place => place.get config' = place.get config

def Writes (config config' : γ) : Cell γ → Prop
  | field f => ∃ value, f.write config value = (config', .ok ())
  | part place => ∃ p, config' = place.put config p

/-- Writing the one cell leaves the other as it is. -/
def Spares (a b : Cell γ) : Prop :=
  ∀ config config', a.Writes config config' → b.Same config config'

structure Apart (a b : Cell γ) : Prop where
  one : a.Spares b
  other : b.Spares a

structure Inside (a b : Cell γ) : Prop where
  writes : ∀ config config', a.Writes config config' → b.Writes config config'
  same : ∀ config config', b.Same config config' → a.Same config config'

variable {a b a' b' : Cell γ}

theorem Inside.refl (a : Cell γ) : a.Inside a := ⟨fun _ _ => id, fun _ _ => id⟩

theorem Spares.inside (spares : a.Spares b) (left : a'.Inside a) (right : b'.Inside b) :
    a'.Spares b' := by
  intro config config' written
  exact right.same _ _ (spares config config' (left.writes _ _ written))

theorem Apart.inside (apart : a.Apart b) (left : a'.Inside a) (right : b'.Inside b) :
    a'.Apart b' :=
  ⟨apart.one.inside left right, apart.other.inside right left⟩

theorem Apart.symm (apart : a.Apart b) : b.Apart a := ⟨apart.other, apart.one⟩

theorem inside_part (place : Place γ δ) (f : Field δ) :
    (field (f.within place)).Inside (part place) where
  writes config config' written := by
    obtain ⟨value, written⟩ := written
    obtain ⟨p, _, put⟩ := Field.within_write written
    exact ⟨p, put⟩
  same config config' same := congrArg f.view same

theorem Spares.within {place : Place γ δ} {f f' : Field δ} (holds : place.Holds)
    (spares : (field f).Spares (field f')) :
    (field (f.within place)).Spares (field (f'.within place)) := by
  rintro config config' ⟨value, written⟩
  obtain ⟨p, there, rfl⟩ := Field.within_write written
  show f'.view (place.get (place.put config p)) = f'.view (place.get config)
  rw [holds]
  exact spares _ p ⟨value, there⟩

theorem Apart.within {place : Place γ δ} {f f' : Field δ} (holds : place.Holds)
    (apart : (field f).Apart (field f')) :
    (field (f.within place)).Apart (field (f'.within place)) :=
  ⟨apart.one.within holds, apart.other.within holds⟩

theorem inside_of {α : Type} (read : String → Reading α) (place : Place γ α) :
    (field (.of read place)).Inside (part place) where
  writes config config' written := by
    obtain ⟨value, written⟩ := written
    obtain ⟨a, _, put⟩ := Write.of_accepted written
    exact ⟨a, put⟩
  same config config' same := same

theorem part_spares {p : Place γ δ} {q : Place γ ε}
    (same : ∀ config d, q.get (p.put config d) = q.get config) : (part p).Spares (part q) := by
  rintro config config' ⟨d, rfl⟩
  exact same config d

end Cell

end Cuescript.Options
