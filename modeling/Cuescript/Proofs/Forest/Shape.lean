import Cuescript.Directive.Basic

/-!
Where the directives of a script stand to each other, told from their kinds alone. Actions in a row
are a run, and the first of them is its head. The triggers in front of an action that no other
action separates are its group. A requirement belongs to the next directive of another kind.
-/
namespace Cuescript.Shape

variable (kinds : List Kind)

def Head (h : Nat) : Prop :=
  kinds[h]? = some .action ∧ ∀ j, j + 1 = h → kinds[j]? ≠ some .action

/-- `k` is an action after the head `h` with nothing but actions from one to the other. -/
def Follows (h k : Nat) : Prop :=
  Head kinds h ∧ h < k ∧ ∀ j, h ≤ j → j ≤ k → kinds[j]? = some .action

def LastTrigger (l k : Nat) : Prop :=
  l < k ∧ kinds[l]? = some .trigger ∧ ∀ j, l < j → j < k → kinds[j]? ≠ some .trigger

/-- `u` is a trigger before `k`, and no action lies between it and the last trigger before `k`. -/
def Group (u k : Nat) : Prop :=
  kinds[u]? = some .trigger ∧
    ∃ l, LastTrigger kinds l k ∧ u ≤ l ∧ ∀ j, u < j → j < l → kinds[j]? ≠ some .action

def Adopts (k j : Nat) : Prop :=
  j < k ∧ (∀ i, j ≤ i → i < k → kinds[i]? = some .requirement) ∧
    ∃ kind, kinds[k]? = some kind ∧ kind ≠ .requirement

variable {kinds}

theorem Head.action {h : Nat} (head : Head kinds h) : kinds[h]? = some .action := head.1

theorem Follows.action {h k : Nat} (f : Follows kinds h k) : kinds[k]? = some .action :=
  f.2.2 k (Nat.le_of_lt f.2.1) (Nat.le_refl k)

theorem Follows.not_head {h k : Nat} (f : Follows kinds h k) : ¬ Head kinds k := by
  intro head
  have before := f.2.1
  exact head.2 (k - 1) (by omega) (f.2.2 (k - 1) (by omega) (by omega))

theorem Follows.lt_head {h g k : Nat} (f : Follows kinds h k) (head : Head kinds g) (lt : h < g) :
    k < g := by
  rcases Nat.lt_or_ge k g with less | le
  · exact less
  · exact absurd (f.2.2 (g - 1) (by omega) (by omega)) (head.2 (g - 1) (by omega))

theorem run_of_action {k : Nat} (action : kinds[k]? = some .action) :
    ∃ h, Head kinds h ∧ h ≤ k ∧ ∀ j, h ≤ j → j ≤ k → kinds[j]? = some .action := by
  induction k with
  | zero =>
    refine ⟨0, ⟨action, fun j hj => by omega⟩, Nat.le_refl 0, fun j _ hj => ?_⟩
    rwa [Nat.le_zero.mp hj]
  | succ k ih =>
    by_cases before : kinds[k]? = some .action
    · obtain ⟨h, head, le, all⟩ := ih before
      refine ⟨h, head, Nat.le_succ_of_le le, fun j lo hi => ?_⟩
      rcases Nat.lt_or_eq_of_le hi with lt | rfl
      · exact all j lo (Nat.le_of_lt_succ lt)
      · exact action
    · refine ⟨k + 1, ⟨action, fun j hj => ?_⟩, Nat.le_refl _, fun j lo hi => ?_⟩
      · rwa [Nat.succ.inj hj]
      · rwa [Nat.le_antisymm hi lo]

theorem head_or_follows {k : Nat} (action : kinds[k]? = some .action) :
    Head kinds k ∨ ∃ h, Follows kinds h k := by
  obtain ⟨h, head, le, all⟩ := run_of_action action
  rcases Nat.lt_or_eq_of_le le with lt | rfl
  · exact Or.inr ⟨h, head, lt, all⟩
  · exact Or.inl head

theorem Follows.head_unique {h g k : Nat} (f : Follows kinds h k) (f' : Follows kinds g k) :
    h = g := by
  rcases Nat.lt_trichotomy h g with lt | same | lt
  · exact absurd (f.2.2 (g - 1) (by omega) (by have := f'.2.1; omega)) (f'.1.2 (g - 1) (by omega))
  · exact same
  · exact absurd (f'.2.2 (h - 1) (by omega) (by have := f.2.1; omega)) (f.1.2 (h - 1) (by omega))

theorem lastTrigger_of_trigger {u k : Nat} (before : u < k) (trigger : kinds[u]? = some .trigger) :
    ∃ l, LastTrigger kinds l k ∧ u ≤ l := by
  induction k with
  | zero => omega
  | succ k ih =>
    by_cases here : kinds[k]? = some .trigger
    · exact ⟨k, ⟨Nat.lt_succ_self k, here, fun j lo hi => by omega⟩, Nat.le_of_lt_succ before⟩
    · have earlier : u < k := by
        refine Nat.lt_of_le_of_ne (Nat.le_of_lt_succ before) ?_
        rintro rfl
        exact here trigger
      obtain ⟨l, ⟨lt, last, none⟩, le⟩ := ih earlier
      refine ⟨l, ⟨Nat.lt_succ_of_lt lt, last, fun j lo hi => ?_⟩, le⟩
      rcases Nat.lt_or_eq_of_le (Nat.le_of_lt_succ hi) with lt' | rfl
      · exact none j lo lt'
      · exact here

theorem Group.before {u k : Nat} (g : Group kinds u k) : u < k := by
  obtain ⟨_, l, last, le, _⟩ := g
  exact Nat.lt_of_le_of_lt le last.1

theorem Follows.group {h k u : Nat} (f : Follows kinds h k) : Group kinds u k ↔ Group kinds u h := by
  have actions : ∀ j, h ≤ j → j < k → kinds[j]? ≠ some .trigger := by
    intro j lo hi
    rw [f.2.2 j lo (Nat.le_of_lt hi)]
    simp
  have last : ∀ l, LastTrigger kinds l k ↔ LastTrigger kinds l h := by
    intro l
    constructor
    · rintro ⟨lt, trigger, none⟩
      have inside : l < h := by
        rcases Nat.lt_or_ge l h with lt' | ge
        · exact lt'
        · exact absurd trigger (actions l ge lt)
      exact ⟨inside, trigger, fun j lo hi => none j lo (Nat.lt_trans hi f.2.1)⟩
    · rintro ⟨lt, trigger, none⟩
      refine ⟨Nat.lt_trans lt f.2.1, trigger, fun j lo hi => ?_⟩
      rcases Nat.lt_or_ge j h with lt' | ge
      · exact none j lo lt'
      · exact actions j ge hi
  simp only [Group, last]

theorem Adopts.unique {k m j : Nat} (a : Adopts kinds k j) (b : Adopts kinds m j) : k = m := by
  obtain ⟨lt, all, kind, hk, other⟩ := a
  obtain ⟨lt', all', kind', hm, other'⟩ := b
  rcases Nat.lt_trichotomy k m with less | same | less
  · rw [all' k (Nat.le_of_lt lt) less] at hk
    exact absurd (Option.some.inj hk).symm other
  · exact same
  · rw [all m (Nat.le_of_lt lt') less] at hm
    exact absurd (Option.some.inj hm).symm other'

theorem exists_adopts {j m : Nat} {kind : Kind} (requirement : kinds[j]? = some .requirement)
    (later : j < m) (here : kinds[m]? = some kind) (other : kind ≠ .requirement) :
    ∃ k, Adopts kinds k j := by
  induction m using Nat.strongRecOn generalizing kind with
  | ind m ih =>
    by_cases all : ∀ i, j ≤ i → i < m → kinds[i]? = some .requirement
    · exact ⟨m, later, all, kind, here, other⟩
    · obtain ⟨i, broken⟩ := Classical.not_forall.mp all
      simp only [Classical.not_imp] at broken
      obtain ⟨lo, hi, not⟩ := broken
      have inside : i < kinds.length := Nat.lt_trans hi (List.getElem?_eq_some_iff.mp here).1
      have here' : kinds[i]? = some kinds[i] := List.getElem?_eq_getElem inside
      have distinct : j ≠ i := fun same => not (same ▸ requirement)
      refine ih i hi (by omega) here' fun same => ?_
      rw [same] at here'
      exact not here'

end Cuescript.Shape
