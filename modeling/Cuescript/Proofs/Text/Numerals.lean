import Cuescript.Proofs.Text.Runs
import Cuescript.Text.Numeral

/-!
Numerals as texts. Main statements: a number written in decimal is a run of digits that is read back
as the number, a text is read as an integer only if it ends with a digit, and as a natural number
exactly if it is digits that stay within the bound, perhaps behind a plus sign.
-/
namespace Cuescript.Text

theorem isDigit_of_isBlank {c : Char} (blank : isBlank c = true) : c.isDigit = false :=
  blank_forall (P := fun c => c.isDigit = false) (by decide +kernel) blank

theorem wordLimit_eq : wordLimit = 18446744073709551616 := by decide

theorem decimal_ne_nil (n : Nat) : decimal n ≠ [] := Nat.toDigits_ne_nil

theorem isDigit_of_mem_decimal {n : Nat} {c : Char} (member : c ∈ decimal n) :
    c.isDigit = true :=
  Nat.isDigit_of_mem_toDigits (by decide) (by decide) member

theorem digitsValue_decimal (n : Nat) : digitsValue 0 (decimal n) = n := by
  have value := Nat.ofDigitChars_toDigits (b := 10) (n := n) (by decide) (by decide)
  simp only [Nat.ofDigitChars_eq_foldl, Nat.mul_comm 10] at value
  exact value

theorem isDigit_of_readDigits {limit acc n : Nat} {beyond : NumeralError} {cs : List Char}
    (read : readDigits limit beyond acc cs = .ok n) : ∀ c ∈ cs, c.isDigit = true := by
  induction cs generalizing acc with
  | nil => nofun
  | cons c cs ih =>
    unfold readDigits at read
    split at read
    · cases read
    · rename_i digit
      dsimp only at read
      split at read
      · cases read
      · intro d member
        rcases List.mem_cons.mp member with rfl | member
        · simpa using digit
        · exact ih read d member

/-- Only the sign of an integer is no digit, and a sign alone is no integer. -/
theorem isDigit_last_of_readInteger {lo hi n : Int} {cs : List Char}
    (read : readInteger lo hi cs = .ok n) : ∀ c ∈ cs.getLast?, c.isDigit = true := by
  have digits : ∀ {limit : Nat} {beyond : NumeralError} {ds : List Char} {f : Nat → Int},
      (readDigits limit beyond 0 ds).map f = .ok n → ∀ c ∈ ds.getLast?, c.isDigit = true := by
    intro limit beyond ds f read c last
    cases is : readDigits limit beyond 0 ds with
    | error e =>
      rw [is] at read
      cases read
    | ok m => exact isDigit_of_readDigits is c (List.mem_of_getLast? last)
  have behind : ∀ {sign : Char} {ds : List Char}, ds ≠ [] →
      (∀ c ∈ ds.getLast?, c.isDigit = true) → ∀ c ∈ (sign :: ds).getLast?, c.isDigit = true := by
    intro sign ds some inside
    obtain ⟨d, ds, rfl⟩ := List.exists_cons_of_ne_nil some
    rwa [List.getLast?_cons_cons]
  unfold readInteger at read
  split at read
  · cases read
  · cases read
  · cases read
  · rename_i other
    exact behind other (digits read)
  · rename_i other
    split at read
    · exact behind other (digits read)
    · cases read
  · exact digits read

theorem readDigits_ok_iff {limit acc n : Nat} {beyond : NumeralError} {cs : List Char}
    (inside : acc ≤ limit) : readDigits limit beyond acc cs = .ok n ↔
      (∀ c ∈ cs, c.isDigit = true) ∧ digitsValue acc cs ≤ limit ∧ n = digitsValue acc cs := by
  constructor
  · intro read
    refine ⟨isDigit_of_readDigits read, ?_⟩
    induction cs generalizing acc with
    | nil =>
      cases read
      exact ⟨inside, rfl⟩
    | cons c cs ih =>
      simp only [readDigits] at read
      split at read
      · cases read
      · split at read
        · cases read
        · rename_i fits
          exact ih (Nat.le_of_not_lt fits) read
  · rintro ⟨digits, small, rfl⟩
    exact readDigits_ok digits small

/-- A natural number is written in digits, perhaps with a plus sign before them. -/
theorem readInteger_ok_iff {hi : Nat} {n : Int} {cs : List Char} :
    readInteger 0 hi cs = .ok n ↔ ∃ digits, (cs = digits ∨ cs = '+' :: digits) ∧ digits ≠ [] ∧
      (∀ c ∈ digits, c.isDigit = true) ∧ digitsValue 0 digits ≤ hi ∧ digitsValue 0 digits = n := by
  have read (ds : List Char) : (readDigits hi .tooLarge 0 ds).map Int.ofNat = .ok n ↔
      (∀ c ∈ ds, c.isDigit = true) ∧ digitsValue 0 ds ≤ hi ∧ digitsValue 0 ds = n := by
    have value (m : Nat) : readDigits hi .tooLarge 0 ds = .ok m ↔ _ :=
      readDigits_ok_iff (Nat.zero_le hi)
    cases is : readDigits hi .tooLarge 0 ds with
    | error =>
      simp only [is, reduceCtorEq, false_iff] at value
      simp only [Except.map, reduceCtorEq, false_iff]
      exact fun both => value _ ⟨both.1, both.2.1, rfl⟩
    | ok m =>
      obtain ⟨digits, small, rfl⟩ := (value m).mp is
      simp only [Except.map, Int.ofNat_eq_natCast, Except.ok.injEq]
      exact ⟨fun same => ⟨digits, small, same⟩, fun same => same.2.2⟩
  unfold readInteger
  split
  · simp
  · simp
  · simp
  · rename_i ds nonempty
    have nonempty : ds ≠ [] := nonempty
    simp only [Int.toNat_natCast, read]
    constructor
    · exact fun is => ⟨ds, .inr rfl, nonempty, is⟩
    · rintro ⟨digits, rfl | is, -, all, rest⟩
      · simp at all
      · cases is
        exact ⟨all, rest⟩
  · simp
  · rename_i nonempty _ _ unsigned _
    have nonempty : cs ≠ [] := nonempty
    simp only [Int.toNat_natCast, read]
    constructor
    · exact fun is => ⟨cs, .inl rfl, nonempty, is⟩
    · rintro ⟨digits, rfl | rfl, -, is⟩
      · exact is
      · exact (unsigned digits rfl).elim

end Cuescript.Text
