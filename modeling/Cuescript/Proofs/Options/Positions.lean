import Cuescript.Proofs.Options.Binding

/-!
The positions of a schema. Main statements: a position that two options share is reported if it is
the least one, with the first two options declared with it; if there is none, the bare values go to
the options in the order of their positions.
-/
namespace Cuescript.Options

variable {γ : Type}

def holding (p : Nat) (ds : List (Decl γ)) : List (Decl γ) :=
  ds.filter fun d => d.position = some p

/-- `d` and `e` are the first two options with position `p`, the least one that is shared. -/
structure Shared (ds : List (Decl γ)) (p : Nat) (d e : Decl γ) : Prop where
  two : ∃ rest, holding p ds = d :: e :: rest
  least : ∀ q < p, (holding q ds).length ≤ 1

/-- Each option has a position and none has a smaller one than an option before it. -/
def Ascending (ds : List (Decl γ)) : Prop :=
  ds.Pairwise (fun d e => d.position.getD 0 ≤ e.position.getD 0) ∧ ∀ d ∈ ds, d.position.isSome

section Clash

variable {ds : List (Decl γ)} {d e : Decl γ} {p q : Nat}

theorem holding_cons (at_p : d.position = some p) : holding p (d :: ds) = d :: holding p ds := by
  rw [holding, List.filter_cons_of_pos (by simpa using at_p), holding]

theorem holding_cons_of_ne (other : d.position ≠ some p) : holding p (d :: ds) = holding p ds := by
  rw [holding, List.filter_cons_of_neg (by simpa using other), holding]

theorem Ascending.holding_nil (ascending : Ascending (d :: ds)) (at_p : d.position = some p)
    (less : q < p) : holding q (d :: ds) = [] := by
  refine List.filter_eq_nil_iff.mpr fun e member at_q => ?_
  have at_q : e.position = some q := by simpa using at_q
  rcases List.mem_cons.mp member with rfl | later
  · rw [at_p] at at_q
    cases at_q
    exact Nat.lt_irrefl _ less
  · have order := (List.pairwise_cons.mp ascending.1).1 e later
    rw [at_p, at_q, Option.getD_some, Option.getD_some] at order
    omega

theorem Ascending.tail (ascending : Ascending (d :: ds)) : Ascending ds :=
  ⟨(List.pairwise_cons.mp ascending.1).2,
    fun e member => ascending.2 e (List.mem_cons_of_mem d member)⟩

theorem clash?_ascending (ascending : Ascending ds) :
    (Schema.clash? ds = none ∧ ∀ p, (holding p ds).length ≤ 1) ∨
      ∃ p d e, Schema.clash? ds = some (.duplicatePosition p d.key e.key) ∧ Shared ds p d e := by
  induction ds with
  | nil => exact .inl ⟨rfl, fun p => Nat.zero_le 1⟩
  | cons d ds ih =>
    obtain ⟨p, at_p⟩ := Option.isSome_iff_exists.mp (ascending.2 d List.mem_cons_self)
    cases ds with
    | nil =>
      refine .inl ⟨rfl, fun q => ?_⟩
      exact List.length_filter_le _ [d]
    | cons e rest =>
      by_cases same : d.position = e.position
      · refine .inr ⟨p, d, e, ?_, ⟨holding p rest, ?_⟩, fun q less => ?_⟩
        · rw [Schema.clash?, if_pos same, at_p, Option.getD_some]
        · rw [holding_cons at_p, holding_cons (same ▸ at_p)]
        · rw [ascending.holding_nil at_p less]
          exact Nat.zero_le 1
      · -- The position of `d` is below those behind it, so there it is nobody's.
        have alone : holding p (e :: rest) = [] := by
          obtain ⟨q, at_q⟩ := Option.isSome_iff_exists.mp (ascending.tail.2 e List.mem_cons_self)
          have order := (List.pairwise_cons.mp ascending.1).1 e List.mem_cons_self
          rw [at_p, at_q, Option.getD_some, Option.getD_some] at order
          have other : p ≠ q := fun equal => same (by rw [at_p, at_q, equal])
          exact ascending.tail.holding_nil at_q (Nat.lt_of_le_of_ne order other)
        have behind : ∀ q, (holding q (e :: rest)).length ≤ 1 →
            (holding q (d :: e :: rest)).length ≤ 1 := by
          intro q few
          by_cases at_q : d.position = some q
          · cases Option.some.inj (at_p.symm.trans at_q)
            rw [holding_cons at_p, alone]
            exact Nat.le_refl 1
          · rwa [holding_cons_of_ne at_q]
        have skips : Schema.clash? (d :: e :: rest) = Schema.clash? (e :: rest) := if_neg same
        rw [skips]
        rcases ih ascending.tail with ⟨none, few⟩ | ⟨q, d', e', is, shared⟩
        · exact .inl ⟨none, fun q => behind q (few q)⟩
        · obtain ⟨others, two⟩ := shared.two
          have elsewhere : d.position ≠ some q := by
            rintro at_q
            cases Option.some.inj (at_p.symm.trans at_q)
            rw [alone] at two
            cases two
          refine .inr ⟨q, d', e', is, ⟨others, ?_⟩, fun r less => behind r (shared.least r less)⟩
          rw [holding_cons_of_ne elsewhere, two]

theorem Shared.unique {d' e' : Decl γ} (one : Shared ds p d e) (other : Shared ds q d' e') :
    p = q ∧ d = d' ∧ e = e' := by
  obtain ⟨rest, two⟩ := one.two
  obtain ⟨rest', two'⟩ := other.two
  have many : ¬ (holding p ds).length ≤ 1 := by simp [two]
  have many' : ¬ (holding q ds).length ≤ 1 := by simp [two']
  have same : p = q := Nat.le_antisymm
    (Nat.le_of_not_lt fun less => many' (one.least q less))
    (Nat.le_of_not_lt fun less => many (other.least p less))
  subst same
  rw [two] at two'
  cases two'
  exact ⟨rfl, rfl, rfl⟩

end Clash

namespace Schema

variable {s : Schema γ} {d e : Decl γ} {p : Nat}

def Distinct (s : Schema γ) : Prop := ∀ p, (holding p s.decls).length ≤ 1

theorem positional_ascending (s : Schema γ) : Ascending s.positional := by
  constructor
  · have sorted := @List.pairwise_mergeSort (Decl γ)
      (fun d e => decide (d.position.getD 0 ≤ e.position.getD 0)) (by simp; omega) (by simp; omega)
      (s.decls.filter (·.position.isSome))
    simpa [positional] using sorted
  · intro d member
    rw [positional, List.mem_mergeSort] at member
    exact (List.mem_filter.mp member).2

theorem holding_positional (s : Schema γ) (p : Nat) :
    holding p s.positional = holding p s.decls := by
  have placed : holding p (s.decls.filter (·.position.isSome)) = holding p s.decls := by
    rw [holding, List.filter_filter, holding]
    congr 1
    funext d
    cases d.position <;> simp
  have inside : (holding p s.decls).Sublist s.positional := by
    refine List.sublist_mergeSort (by simp; omega) (by simp; omega) ?_ ?_
    · refine List.Pairwise.imp_of_mem ?_ (List.pairwise_of_forall fun _ _ => trivial)
      intro d e at_d at_e _
      have at_d : d.position = some p := by simpa using (List.mem_filter.mp at_d).2
      have at_e : e.position = some p := by simpa using (List.mem_filter.mp at_e).2
      simp [at_d, at_e]
    · rw [← placed]
      exact List.filter_sublist
  have kept : (holding p s.decls).Sublist (holding p s.positional) := by
    have filtered := inside.filter fun d => d.position = some p
    simpa only [holding, List.filter_filter, Bool.and_self] using filtered
  have length : (holding p s.positional).length = (holding p s.decls).length := by
    rw [← placed, holding, holding, ← List.countP_eq_length_filter, ← List.countP_eq_length_filter]
    exact (List.mergeSort_perm _ _).countP_eq _
  exact (kept.eq_of_length length.symm).symm

theorem Distinct.not_shared (distinct : s.Distinct) : ¬ Shared s.decls p d e := by
  intro shared
  obtain ⟨rest, two⟩ := shared.two
  have few := distinct p
  rw [two] at few
  simp at few

theorem clash?_positional (s : Schema γ) :
    (clash? s.positional = none ∧ s.Distinct) ∨
      ∃ p d e, clash? s.positional = some (.duplicatePosition p d.key e.key) ∧
        Shared s.decls p d e := by
  rcases clash?_ascending s.positional_ascending with ⟨none, few⟩ | ⟨p, d, e, is, two, least⟩
  · exact .inl ⟨none, fun p => s.holding_positional p ▸ few p⟩
  · simp only [holding_positional] at two least
    exact .inr ⟨p, d, e, is, two, least⟩

theorem clash?_of_distinct (distinct : s.Distinct) : clash? s.positional = none := by
  rcases s.clash?_positional with ⟨none, _⟩ | ⟨p, d, e, _, shared⟩
  · exact none
  · exact absurd shared distinct.not_shared

theorem clash?_of_shared (shared : Shared s.decls p d e) :
    clash? s.positional = some (.duplicatePosition p d.key e.key) := by
  rcases s.clash?_positional with ⟨_, distinct⟩ | ⟨q, d', e', is, shared'⟩
  · exact absurd shared distinct.not_shared
  · obtain ⟨rfl, rfl, rfl⟩ := shared.unique shared'
    exact is

/-- Option `n` takes a bare value that `i` others came before: as many positions are below its
own. -/
def Fills (s : Schema γ) (i n : Nat) : Prop :=
  ∃ d p, s.decls[n]? = some d ∧ d.position = some p ∧
    s.decls.countP (fun e => e.position.any (· < p)) = i

theorem Distinct.strictly_ascending (distinct : s.Distinct) :
    s.positional.Pairwise fun d e => d.position.getD 0 < e.position.getD 0 := by
  have ascending := s.positional_ascending
  refine List.pairwise_iff_forall_sublist.mpr fun {d e} both => ?_
  have order := List.pairwise_iff_forall_sublist.mp ascending.1 both
  refine Nat.lt_of_le_of_ne order fun same => ?_
  obtain ⟨p, at_p⟩ := Option.isSome_iff_exists.mp (ascending.2 d (both.subset (by simp)))
  obtain ⟨q, at_q⟩ := Option.isSome_iff_exists.mp (ascending.2 e (both.subset (by simp)))
  rw [at_p, at_q, Option.getD_some, Option.getD_some] at same
  subst same
  have pair := (both.filter fun d => d.position = some p).length_le
  rw [← holding, ← holding, holding_positional, holding_cons at_p, holding_cons at_q] at pair
  have few := distinct p
  simp [holding] at pair few
  omega

theorem countP_of_ascending {α : Type} {f : α → Nat} {l : List α} {a : α}
    (ascending : l.Pairwise fun a b => f a < f b) {i : Nat} (here : l[i]? = some a) :
    l.countP (fun b => f b < f a) = i := by
  induction l generalizing i with
  | nil => simp at here
  | cons b rest ih =>
    obtain ⟨first, tail⟩ := List.pairwise_cons.mp ascending
    cases i with
    | zero =>
      cases here
      rw [List.countP_eq_zero]
      intro c member
      rcases List.mem_cons.mp member with rfl | later
      · simp
      · have := first c later
        simp
        omega
    | succ i =>
      have less := first a (List.mem_of_getElem? here)
      rw [List.countP_cons_of_pos (by simpa using less), ih tail here]

theorem countP_positional (s : Schema γ) (p : Nat) :
    s.positional.countP (fun e => e.position.getD 0 < p) =
      s.decls.countP fun e => e.position.any (· < p) := by
  rw [positional, (List.mergeSort_perm _ _).countP_eq, List.countP_filter]
  congr 1
  funext e
  cases e.position <;> simp

/-- Bare values go to the options with a position in the order of their positions. -/
theorem Distinct.getElem?_positional (distinct : s.Distinct) {i : Nat} :
    s.positional[i]? = some d ↔ ∃ n, s.decls[n]? = some d ∧ s.Fills i n := by
  have index {j p : Nat} (here : s.positional[j]? = some d) (at_p : d.position = some p) :
      s.decls.countP (fun e => e.position.any (· < p)) = j := by
    have below := countP_of_ascending distinct.strictly_ascending here
    rwa [at_p, Option.getD_some, countP_positional] at below
  constructor
  · intro here
    have member := List.mem_of_getElem? here
    obtain ⟨p, at_p⟩ := Option.isSome_iff_exists.mp (s.positional_ascending.2 d member)
    obtain ⟨n, is⟩ := List.mem_iff_getElem?.mp (s.positional_subset member)
    exact ⟨n, is, d, p, is, at_p, index here at_p⟩
  · rintro ⟨n, is, d', p, is', at_p, below⟩
    cases Option.some.inj (is.symm.trans is')
    have member : d ∈ s.positional := by
      rw [positional, List.mem_mergeSort, List.mem_filter]
      exact ⟨List.mem_of_getElem? is, by rw [at_p]; rfl⟩
    obtain ⟨j, here⟩ := List.mem_iff_getElem?.mp member
    rwa [← below, index here at_p]

theorem Distinct.eq_of_position (distinct : s.Distinct) {n m : Nat} (one : s.decls[n]? = some d)
    (other : s.decls[m]? = some e) (at_p : d.position = some p) (at_p' : e.position = some p) :
    n = m := by
  have apart {n m : Nat} {d e : Decl γ} (one : s.decls[n]? = some d)
      (other : s.decls[m]? = some e) (at_p : d.position = some p) (at_p' : e.position = some p) :
      ¬ n < m := by
    intro less
    have front : d ∈ holding p (s.decls.take m) := by
      refine List.mem_filter.mpr ⟨List.mem_of_getElem? (i := n) ?_, by simp [at_p]⟩
      rw [List.getElem?_take_of_lt less, one]
    have back : e ∈ holding p (s.decls.drop m) := by
      refine List.mem_filter.mpr ⟨List.mem_of_getElem? (i := 0) ?_, by simp [at_p']⟩
      rw [List.getElem?_drop, Nat.add_zero, other]
    have few := distinct p
    rw [← List.take_append_drop m s.decls, holding, List.filter_append, List.length_append] at few
    have some := List.length_pos_of_mem front
    have some' := List.length_pos_of_mem back
    simp only [holding] at some some'
    omega
  exact Nat.le_antisymm (Nat.le_of_not_lt (apart other one at_p' at_p))
    (Nat.le_of_not_lt (apart one other at_p at_p'))

theorem Distinct.fills_unique (distinct : s.Distinct) {i n m : Nat} (one : s.Fills i n)
    (other : s.Fills i m) : n = m := by
  obtain ⟨d, p, is, at_p, below⟩ := one
  obtain ⟨e, q, is', at_q, below'⟩ := other
  have here := distinct.getElem?_positional.mpr ⟨n, is, d, p, is, at_p, below⟩
  have here' := distinct.getElem?_positional.mpr ⟨m, is', e, q, is', at_q, below'⟩
  cases Option.some.inj (here.symm.trans here')
  exact distinct.eq_of_position is is' at_p at_p

end Schema

end Cuescript.Options
