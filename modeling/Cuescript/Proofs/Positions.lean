import Mathlib.Data.List.Basic

/-!
Lists of positions given by what holds at them. Cutting the list at the first position where a test
fails cuts the predicate.
-/
namespace Cuescript

structure InOrder (p : Nat → Prop) (ks : List Nat) : Prop where
  ascending : ks.Pairwise (· < ·)
  mem : ∀ k, k ∈ ks ↔ p k

namespace InOrder

variable {p q : Nat → Prop} {ks : List Nat}

theorem congr (h : InOrder p ks) (same : ∀ k, p k ↔ q k) : InOrder q ks :=
  ⟨h.ascending, fun k => (h.mem k).trans (same k)⟩

theorem nil (none : ∀ k, ¬ p k) : InOrder p [] :=
  ⟨.nil, fun k => ⟨fun h => absurd h List.not_mem_nil, fun h => absurd h (none k)⟩⟩

theorem cons {k : Nat} (h : InOrder (fun j => k + 1 ≤ j ∧ p j) ks) (here : p k) :
    InOrder (fun j => k ≤ j ∧ p j) (k :: ks) := by
  refine ⟨List.pairwise_cons.mpr ⟨?_, h.ascending⟩, ?_⟩
  · intro j hj
    have later := ((h.mem j).mp hj).1
    omega
  · intro j
    rw [List.mem_cons, h.mem]
    constructor
    · rintro (rfl | ⟨later, hp⟩)
      · exact ⟨Nat.le_refl _, here⟩
      · exact ⟨by omega, hp⟩
    · rintro ⟨later, hp⟩
      by_cases same : j = k
      · exact Or.inl same
      · exact Or.inr ⟨by omega, hp⟩

theorem skip {k : Nat} (h : InOrder (fun j => k + 1 ≤ j ∧ p j) ks) (here : ¬ p k) :
    InOrder (fun j => k ≤ j ∧ p j) ks := by
  apply h.congr
  intro j
  constructor
  · rintro ⟨later, hp⟩
    exact ⟨by omega, hp⟩
  · rintro ⟨later, hp⟩
    have other : j ≠ k := fun same => here (same ▸ hp)
    exact ⟨by omega, hp⟩

theorem filter (h : InOrder p ks) (t : Nat → Bool) : InOrder (fun k => p k ∧ t k) (ks.filter t) :=
  ⟨h.ascending.filter t, fun k => by rw [List.mem_filter, h.mem]⟩

theorem takeWhile (h : InOrder p ks) (t : Nat → Bool) :
    InOrder (fun k => p k ∧ ∀ j ≤ k, p j → t j) (ks.takeWhile t) := by
  refine ⟨h.ascending.sublist (List.takeWhile_sublist t), ?_⟩
  induction ks generalizing p with
  | nil =>
    intro k
    have absent := h.mem k
    simp only [List.not_mem_nil, false_iff] at absent
    simp [absent]
  | cons i rest ih =>
    have front := List.pairwise_cons.mp h.ascending
    have tail : InOrder (fun k => p k ∧ i < k) rest := by
      refine ⟨front.2, fun k => ⟨fun hk => ⟨(h.mem k).mp (List.mem_cons_of_mem _ hk), front.1 k hk⟩, ?_⟩⟩
      rintro ⟨hp, later⟩
      rcases List.mem_cons.mp ((h.mem k).mpr hp) with rfl | hk
      · omega
      · exact hk
    have first : p i := (h.mem i).mp List.mem_cons_self
    have least : ∀ j, p j → i ≤ j := by
      intro j hj
      rcases List.mem_cons.mp ((h.mem j).mpr hj) with rfl | hk
      · exact Nat.le_refl _
      · exact Nat.le_of_lt (front.1 j hk)
    intro k
    rw [List.takeWhile_cons]
    cases test : t i with
    | false =>
      simp only [Bool.false_eq_true, if_false, List.not_mem_nil, false_iff]
      rintro ⟨hp, all⟩
      rw [all i (least k hp) first] at test
      cases test
    | true =>
      simp only [if_true, List.mem_cons]
      rw [ih tail k]
      constructor
      · rintro (rfl | ⟨⟨hp, later⟩, all⟩)
        · refine ⟨first, fun j hj hp => ?_⟩
          rwa [Nat.le_antisymm hj (least j hp)]
        · refine ⟨hp, fun j hj hpj => ?_⟩
          by_cases same : j = i
          · rwa [same]
          · exact all j hj ⟨hpj, Nat.lt_of_le_of_ne (least j hpj) (Ne.symm same)⟩
      · rintro ⟨hp, all⟩
        by_cases same : k = i
        · exact Or.inl same
        · exact Or.inr ⟨⟨hp, Nat.lt_of_le_of_ne (least k hp) (Ne.symm same)⟩,
            fun j hj hpj => all j hj hpj.1⟩

theorem dropWhile (h : InOrder p ks) (t : Nat → Bool) :
    InOrder (fun k => p k ∧ ∃ j ≤ k, p j ∧ ¬ t j) (ks.dropWhile t) := by
  have parts := List.takeWhile_append_dropWhile (p := t) (l := ks)
  have disjoint := List.pairwise_append.mp (parts ▸ h.ascending)
  refine ⟨disjoint.2.1, fun k => ?_⟩
  have taken := (h.takeWhile t).mem k
  have whole : p k ↔ k ∈ ks.takeWhile t ∨ k ∈ ks.dropWhile t := by
    rw [← h.mem, ← List.mem_append, parts]
  constructor
  · intro hk
    have hp := whole.mpr (Or.inr hk)
    have notTaken : k ∉ ks.takeWhile t := fun hk' => Nat.lt_irrefl k (disjoint.2.2 k hk' k hk)
    refine ⟨hp, ?_⟩
    by_contra none
    refine notTaken (taken.mpr ⟨hp, fun j hj hpj => ?_⟩)
    by_contra fails
    exact none ⟨j, hj, hpj, fails⟩
  · rintro ⟨hp, j, hj, hpj, fails⟩
    rcases whole.mp hp with hk | hk
    · exact absurd ((taken.mp hk).2 j hj hpj) fails
    · exact hk

end InOrder

end Cuescript
