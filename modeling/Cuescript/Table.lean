/-!
Finite maps as lists of entries with distinct keys, in order of insertion. Main statements: one
equation for the look-up after each operation.
-/
namespace Cuescript

/-- A finite map. No key has two entries. -/
structure Table (κ α : Type) where
  entries : List (κ × α)
  distinct : (entries.map Prod.fst).Nodup

namespace Table

variable {κ α : Type} [DecidableEq κ]

/-- The entry of `k` gets the value `v` in its place, or is added at the end. -/
def putEntry (k : κ) (v : α) : List (κ × α) → List (κ × α)
  | [] => [(k, v)]
  | e :: rest => if e.1 = k then (k, v) :: rest else e :: putEntry k v rest

def findEntry (k : κ) : List (κ × α) → Option α
  | [] => none
  | e :: rest => if e.1 = k then some e.2 else findEntry k rest

theorem mem_keys_putEntry {k j : κ} {v : α} {es : List (κ × α)} :
    j ∈ (putEntry k v es).map Prod.fst ↔ j = k ∨ j ∈ es.map Prod.fst := by
  induction es with
  | nil => simp [putEntry]
  | cons e rest ih =>
    by_cases h : e.1 = k
    · subst h
      simp [putEntry]
    · simp only [putEntry, if_neg h, List.map_cons, List.mem_cons, ih]
      constructor
      · rintro (h | h | h) <;> simp [h]
      · rintro (h | h | h) <;> simp [h]

theorem distinct_putEntry {k : κ} {v : α} {es : List (κ × α)} (h : (es.map Prod.fst).Nodup) :
    ((putEntry k v es).map Prod.fst).Nodup := by
  induction es with
  | nil => simp [putEntry]
  | cons e rest ih =>
    simp only [List.map_cons, List.nodup_cons] at h
    by_cases he : e.1 = k
    · subst he
      simpa [putEntry] using h
    · simp only [putEntry, if_neg he, List.map_cons, List.nodup_cons]
      refine ⟨?_, ih h.2⟩
      rw [mem_keys_putEntry]
      rintro (h' | h')
      · exact he h'
      · exact h.1 h'

theorem findEntry_eq_none {k : κ} {es : List (κ × α)} :
    findEntry k es = none ↔ k ∉ es.map Prod.fst := by
  induction es with
  | nil => simp [findEntry]
  | cons e rest ih =>
    by_cases h : e.1 = k
    · simp [findEntry, h]
    · simp only [findEntry, if_neg h, List.map_cons, List.mem_cons, ih]
      simp [Ne.symm h]

theorem findEntry_eq_some {k : κ} {v : α} {es : List (κ × α)} (h : (es.map Prod.fst).Nodup) :
    findEntry k es = some v ↔ (k, v) ∈ es := by
  induction es with
  | nil => simp [findEntry]
  | cons e rest ih =>
    obtain ⟨j, w⟩ := e
    simp only [List.map_cons, List.nodup_cons] at h
    by_cases he : j = k
    · subst he
      have absent : (j, v) ∉ rest := fun member => h.1 (List.mem_map_of_mem member)
      simp [findEntry, absent, eq_comm]
    · simp [findEntry, he, Ne.symm he, ih h.2]

theorem findEntry_putEntry {k j : κ} {v : α} {es : List (κ × α)} :
    findEntry j (putEntry k v es) = if j = k then some v else findEntry j es := by
  induction es with
  | nil =>
    by_cases h : j = k
    · simp [putEntry, findEntry, h]
    · simp [putEntry, findEntry, h, Ne.symm h]
  | cons e rest ih =>
    by_cases he : e.1 = k
    · by_cases h : j = k
      · simp [putEntry, findEntry, he, h]
      · have hkj : ¬ k = j := fun c => h c.symm
        simp [putEntry, findEntry, he, h, hkj]
    · by_cases h : j = k
      · subst h
        simp [putEntry, findEntry, he, ih]
      · by_cases hj : e.1 = j
        · simp [putEntry, findEntry, hj, h]
        · simp [putEntry, findEntry, he, hj, h, ih]

theorem findEntry_filter {k : κ} {p : κ × α → Bool} {es : List (κ × α)}
    (h : (es.map Prod.fst).Nodup) :
    findEntry k (es.filter p) = (findEntry k es).filter fun v => p (k, v) := by
  induction es with
  | nil => rfl
  | cons e rest ih =>
    simp only [List.map_cons, List.nodup_cons] at h
    by_cases he : e.1 = k
    · have absent : findEntry k rest = none := by
        rw [findEntry_eq_none, ← he]
        exact h.1
      obtain ⟨j, v⟩ := e
      subst he
      cases hp : p (j, v) with
      | true => simp [findEntry, hp, Option.filter]
      | false => simp [findEntry, hp, ih h.2, absent, Option.filter]
    · cases hp : p e with
      | true => simp [findEntry, hp, he, ih h.2]
      | false => simp [findEntry, hp, he, ih h.2]

def empty : Table κ α := ⟨[], .nil⟩

instance : Inhabited (Table κ α) := ⟨empty⟩

def get? (t : Table κ α) (k : κ) : Option α := findEntry k t.entries

def contains (t : Table κ α) (k : κ) : Bool := (t.get? k).isSome

def set (t : Table κ α) (k : κ) (v : α) : Table κ α :=
  ⟨putEntry k v t.entries, distinct_putEntry t.distinct⟩

def keep (t : Table κ α) (p : κ × α → Bool) : Table κ α :=
  ⟨t.entries.filter p, t.distinct.sublist (List.filter_sublist.map _)⟩

def erase (t : Table κ α) (k : κ) : Table κ α := t.keep fun e => e.1 ≠ k

def keys (t : Table κ α) : List κ := t.entries.map Prod.fst

def values (t : Table κ α) : List α := t.entries.map Prod.snd

def size (t : Table κ α) : Nat := t.entries.length

def count (t : Table κ α) (p : α → Bool) : Nat := (t.values.filter p).length

@[simp] theorem get?_empty (k : κ) : (empty : Table κ α).get? k = none := rfl

theorem get?_set (t : Table κ α) (k j : κ) (v : α) :
    (t.set k v).get? j = if j = k then some v else t.get? j := findEntry_putEntry

@[simp] theorem get?_set_same (t : Table κ α) (k : κ) (v : α) : (t.set k v).get? k = some v := by
  rw [get?_set, if_pos rfl]

theorem get?_set_ne (t : Table κ α) {k j : κ} (v : α) (h : j ≠ k) :
    (t.set k v).get? j = t.get? j := by
  rw [get?_set, if_neg h]

theorem contains_set (t : Table κ α) (k j : κ) (v : α) :
    (t.set k v).contains j = (decide (j = k) || t.contains j) := by
  rw [contains, contains, get?_set]
  by_cases h : j = k <;> simp [h]

theorem get?_keep (t : Table κ α) (p : κ × α → Bool) (k : κ) :
    (t.keep p).get? k = (t.get? k).filter fun v => p (k, v) := findEntry_filter t.distinct

theorem get?_erase (t : Table κ α) (k j : κ) :
    (t.erase k).get? j = if j = k then none else t.get? j := by
  rw [erase, get?_keep]
  by_cases h : j = k <;> cases t.get? j <;> simp [h, Option.filter]

theorem get?_eq_some_iff (t : Table κ α) (k : κ) (v : α) :
    t.get? k = some v ↔ (k, v) ∈ t.entries := findEntry_eq_some t.distinct

theorem mem_keys_iff (t : Table κ α) (k : κ) : k ∈ t.keys ↔ (t.get? k).isSome := by
  rw [Option.isSome_iff_ne_none, Ne, get?, findEntry_eq_none, Decidable.not_not]
  rfl

end Table

end Cuescript
