/-!
Decimal numerals within bounds. `readInteger lo hi` reads an optional sign and ASCII digits and
says why a text is no number in range: the first fault from the left is the one reported. Main
statements: a plain run of digits within the bound is read as its value.
-/
namespace Cuescript.Text

def wordLimit : Nat := Nat.pow 2 64

inductive NumeralError where
  | empty
  | invalidDigit
  | tooLarge
  | tooSmall
  deriving DecidableEq

def NumeralError.message : NumeralError → String
  | .empty => "cannot parse integer from empty string"
  | .invalidDigit => "invalid digit found in string"
  | .tooLarge => "number too large to fit in target type"
  | .tooSmall => "number too small to fit in target type"

def digitValue (c : Char) : Nat := c.toNat - 48

def digitsValue (acc : Nat) (cs : List Char) : Nat :=
  cs.foldl (fun n c => n * 10 + digitValue c) acc

/-- Digits read onto `acc`; `beyond` is the fault of passing `limit`. -/
def readDigits (limit : Nat) (beyond : NumeralError) (acc : Nat) :
    List Char → Except NumeralError Nat
  | [] => .ok acc
  | c :: cs =>
    if !c.isDigit then .error .invalidDigit
    else
      let n := acc * 10 + digitValue c
      if n > limit then .error beyond else readDigits limit beyond n cs

/-- An integer between `lo` and `hi`. A minus sign is no digit where no number is negative. -/
def readInteger (lo hi : Int) : List Char → Except NumeralError Int
  | [] => .error .empty
  | ['+'] => .error .invalidDigit
  | ['-'] => .error .invalidDigit
  | '+' :: cs => (readDigits hi.toNat .tooLarge 0 cs).map Int.ofNat
  | '-' :: cs =>
    if lo < 0 then (readDigits (-lo).toNat .tooSmall 0 cs).map fun n => -Int.ofNat n
    else .error .invalidDigit
  | cs => (readDigits hi.toNat .tooLarge 0 cs).map Int.ofNat

def decimal (n : Nat) : List Char := Nat.toDigits 10 n

theorem readDigits_ok {limit : Nat} {beyond : NumeralError} {acc : Nat} {cs : List Char}
    (digits : ∀ c ∈ cs, c.isDigit = true) (small : digitsValue acc cs ≤ limit) :
    readDigits limit beyond acc cs = .ok (digitsValue acc cs) := by
  induction cs generalizing acc with
  | nil => rfl
  | cons c cs ih =>
    have hc := digits c (by simp)
    have grows : acc * 10 + digitValue c ≤ digitsValue (acc * 10 + digitValue c) cs := by
      generalize acc * 10 + digitValue c = m
      clear ih digits small
      induction cs generalizing m with
      | nil => exact Nat.le_refl _
      | cons d ds ih =>
        exact Nat.le_trans (by omega) (ih (m * 10 + digitValue d))
    have small' : digitsValue (acc * 10 + digitValue c) cs ≤ limit := small
    have fits : ¬ limit < acc * 10 + digitValue c := by omega
    simp only [readDigits, hc, Bool.not_true, Bool.false_eq_true, ↓reduceIte, gt_iff_lt, fits]
    exact ih (fun d hd => digits d (by simp [hd])) small'

end Cuescript.Text
