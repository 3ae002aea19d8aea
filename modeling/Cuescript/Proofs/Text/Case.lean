import Cuescript.Text.Lowercase

/-!
The two ways to compare texts without regard to case: by the full lower case, and by the case of
ASCII letters alone. Main statement: the second is the finer one, and what it adds is that the
characters beyond ASCII are the same ones in the same places.
-/
namespace Cuescript.Text

/-- A character beyond ASCII as it is; of the others only that they are ASCII. -/
def beyondAscii? (c : Char) : Option Char := if c.toNat < 128 then none else some c

def foreign (cs : List Char) : List (Option Char) := cs.map beyondAscii?

theorem ascii_forall {P : Char → Prop} (holds : ∀ n, n < 128 → P (Char.ofNat n)) (c : Char)
    (ascii : c.toNat < 128) : P c := by
  have here := holds c.toNat ascii
  rwa [Char.ofNat_toNat] at here

section Char

variable {c d : Char}

theorem toLower_foreign (beyond : ¬ c.toNat < 128) : c.toLower = c := by
  change dite _ _ _ = c
  rw [dif_neg]
  rintro ⟨-, le⟩
  rw [UInt32.le_iff_toNat_le] at le
  exact beyond (Nat.lt_of_le_of_lt le (by decide))

/-- What gives the same answer for the lower case of an ASCII letter gives it for any character. -/
theorem toLower_invariant {α : Type} {f : Char → α}
    (same : ∀ n, n < 128 → f (Char.ofNat n).toLower = f (Char.ofNat n)) (c : Char) :
    f c.toLower = f c := by
  by_cases ascii : c.toNat < 128
  · exact ascii_forall (P := fun c => f c.toLower = f c) same c ascii
  · rw [toLower_foreign ascii]

theorem beyondAscii?_toLower (c : Char) : beyondAscii? c.toLower = beyondAscii? c :=
  toLower_invariant (by decide +kernel) c

theorem lowerChar_toLower (c : Char) : lowerChar c.toLower = lowerChar c :=
  toLower_invariant (by decide +kernel) c

theorem isCased_toLower (c : Char) : isCased c.toLower = isCased c :=
  toLower_invariant (by decide +kernel) c

theorem isCaseIgnorable_toLower (c : Char) : isCaseIgnorable c.toLower = isCaseIgnorable c :=
  toLower_invariant (by decide +kernel) c

theorem isSigma_toLower (c : Char) : c.toLower.toNat = 0x3A3 ↔ c.toNat = 0x3A3 := by
  have same : (c.toLower.toNat == 0x3A3) = (c.toNat == 0x3A3) :=
    toLower_invariant (f := fun c => c.toNat == 0x3A3) (by decide +kernel) c
  rw [← beq_iff_eq, same, beq_iff_eq]

theorem beyondAscii?_eq (same : beyondAscii? c = beyondAscii? d) :
    c = d ∨ c.toNat < 128 ∧ d.toNat < 128 := by
  unfold beyondAscii? at same
  split at same
  · rename_i ascii
    split at same
    · rename_i ascii'
      exact .inr ⟨ascii, ascii'⟩
    · cases same
  · split at same
    · cases same
    · exact .inl (Option.some.inj same)

theorem lowerChar_ascii (ascii : c.toNat < 128) : lowerChar c = [c.toLower] := by
  rw [lowerChar, if_neg (by omega), lowerSimple, if_pos ascii]

end Char

theorem foreign_map_toLower (cs : List Char) : foreign (cs.map Char.toLower) = foreign cs := by
  simp only [foreign, List.map_map, Function.comp_def, beyondAscii?_toLower]

theorem meetsCased_map_toLower (cs : List Char) :
    meetsCased (cs.map Char.toLower) = meetsCased cs := by
  have ignorable : isCaseIgnorable ∘ Char.toLower = isCaseIgnorable :=
    funext isCaseIgnorable_toLower
  rw [meetsCased, meetsCased, List.dropWhile_map, ignorable]
  cases cs.dropWhile isCaseIgnorable with
  | nil => rfl
  | cons c _ => exact isCased_toLower c

/-- The full lower case does not see the case of ASCII letters. -/
theorem lowerFrom_map_toLower (before cs : List Char) :
    lowerFrom (before.map Char.toLower) (cs.map Char.toLower) = lowerFrom before cs := by
  induction cs generalizing before with
  | nil => rfl
  | cons c rest ih =>
    have tail := ih (c :: before)
    rw [List.map_cons] at tail
    simp only [List.map_cons, lowerFrom, isSigma_toLower, lowerChar_toLower,
      meetsCased_map_toLower, tail]

/-- Characters beyond ASCII that are the same in the same places have the same lower case there, so
what is left of it tells of the ASCII letters. -/
theorem map_toLower_of_lowerFrom {before before' cs ds : List Char}
    (lower : lowerFrom before cs = lowerFrom before' ds) (places : foreign cs = foreign ds) :
    cs.map Char.toLower = ds.map Char.toLower := by
  induction cs generalizing before before' ds with
  | nil =>
    cases ds with
    | nil => rfl
    | cons => cases places
  | cons c cs ih =>
    cases ds with
    | nil => cases places
    | cons d ds =>
      obtain ⟨first, rest⟩ := List.cons.inj places
      simp only [lowerFrom] at lower
      rcases beyondAscii?_eq first with rfl | ⟨ascii, ascii'⟩
      · have tail := List.append_inj_right lower (by split <;> rfl)
        rw [List.map_cons, List.map_cons, ih tail rest]
      · rw [if_neg (by omega), if_neg (by omega), lowerChar_ascii ascii,
          lowerChar_ascii ascii'] at lower
        obtain ⟨head, tail⟩ := List.cons.inj lower
        rw [List.map_cons, List.map_cons, head, ih tail rest]

theorem eqIgnoringAsciiCase_iff {s t : String} :
    eqIgnoringAsciiCase s t = true ↔
      lowercase s = lowercase t ∧ foreign s.toList = foreign t.toList := by
  rw [eqIgnoringAsciiCase, beq_iff_eq, lowercase, lowercase, String.ofList_inj]
  constructor
  · intro same
    constructor
    · rw [lower, lower, ← lowerFrom_map_toLower [], ← lowerFrom_map_toLower [] t.toList, same]
    · rw [← foreign_map_toLower, same, foreign_map_toLower]
  · rintro ⟨lower, places⟩
    exact map_toLower_of_lowerFrom lower places

theorem eqIgnoringAsciiCase_ascii {s t : String} (ascii : ∀ c ∈ s.toList, c.toNat < 128)
    (ascii' : ∀ c ∈ t.toList, c.toNat < 128) :
    eqIgnoringAsciiCase s t = true ↔ lowercase s = lowercase t := by
  rw [eqIgnoringAsciiCase, beq_iff_eq, lowercase, lowercase, String.ofList_inj,
    lower_ascii _ ascii, lower_ascii _ ascii']

end Cuescript.Text
