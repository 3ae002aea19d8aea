import Cuescript.Json.Basic

/-!
The 64-bit floats behind JSON numbers, in exact arithmetic. `nearest` rounds a quotient to a
float, ties to the even significand; `shortest` finds the decimal of fewest digits that rounds
back, the nearer one where there are two, and of two as near the even one.
-/
namespace Cuescript

/-- The number `significand * 2 ^ exponent`; a normal significand has 53 bits. -/
structure Binary where
  significand : Nat
  exponent : Int
  deriving DecidableEq, Inhabited

namespace Binary

def scaled (n base : Nat) (e : Int) : Nat × Nat :=
  if 0 ≤ e then (n * Nat.pow base e.toNat, 1) else (n, Nat.pow base (-e).toNat)

def roundDiv (num den : Nat) : Nat :=
  let q := num / den
  let twice := 2 * (num % den)
  if twice < den then q else if twice = den then q + q % 2 else q + 1

/-- The float next to `num / den`. Its exponent leaves 53 bits, or is the least one. -/
def nearest (num den : Nat) : Binary :=
  if num = 0 then ⟨0, 0⟩
  else
    let guess : Int := (Nat.log2 num : Int) - (Nat.log2 den : Int) - 52
    let rounded (e : Int) : Nat :=
      if 0 ≤ e then roundDiv num (den * Nat.pow 2 e.toNat)
      else roundDiv (num * Nat.pow 2 (-e).toNat) den
    let e := if (if 0 ≤ guess then num < den * Nat.pow 2 guess.toNat * Nat.pow 2 52
                 else num * Nat.pow 2 (-guess).toNat < den * Nat.pow 2 52) then guess - 1 else guess
    let e := max e (-1074)
    let m := rounded e
    if m = Nat.pow 2 53 then ⟨Nat.pow 2 52, e + 1⟩ else ⟨m, e⟩

def isInfinite (b : Binary) : Bool := b.exponent > 971

def mul (a b : Binary) : Binary :=
  let (num, den) := scaled (a.significand * b.significand) 2 (a.exponent + b.exponent)
  nearest num den

def div (a b : Binary) : Binary :=
  let (num, den) := scaled a.significand 2 (a.exponent - b.exponent)
  nearest num (den * b.significand)

def powerOfTen (e : Nat) : Binary := nearest (Nat.pow 10 e) 1

/-- `significand * 10 ^ exponent` in at most three rounded steps: the significand, the power of
ten, and their product or quotient. Nothing beyond the largest float is a number. -/
def ofDecimal? (significand : Nat) (exponent : Int) : Option Binary :=
  let m := nearest significand 1
  if significand = 0 then some ⟨0, 0⟩
  else if exponent > 308 then none
  else if exponent ≥ 0 then
    let b := m.mul (powerOfTen exponent.toNat)
    if b.isInfinite then none else some b
  else if exponent ≥ -308 then some (m.div (powerOfTen (-exponent).toNat))
  else if exponent ≥ -616 then
    some ((m.div (powerOfTen 308)).div (powerOfTen (-exponent - 308).toNat))
  else some ⟨0, 0⟩

def readsBack (b : Binary) (n : Nat) (e : Int) : Bool :=
  let (num, den) := scaled n 10 e
  nearest num den == b

/-- The distance of `n * 10 ^ e` from `b`, as a numerator over the common denominator. -/
def distance (b : Binary) (n : Nat) (e : Int) : Nat :=
  let (bn, bd) := scaled b.significand 2 b.exponent
  let (n', d') := scaled n 10 e
  (Int.natAbs (bn * d' - n' * bd : Int))

/-- The first grid of decimals on which a neighbour of `b` reads back; each grid is ten times as
fine as the one before. -/
def shortestFrom (b : Binary) (e : Int) : Nat → Nat × Int
  | 0 => (0, 0)
  | grids + 1 =>
    let (num, den) := scaled b.significand 2 b.exponent
    let below :=
      if 0 ≤ e then num / (den * Nat.pow 10 e.toNat) else num * Nat.pow 10 (-e).toNat / den
    let low := b.readsBack below e
    let high := b.readsBack (below + 1) e
    let down := b.distance below e
    let up := b.distance (below + 1) e
    if low && (!high || down < up || (down = up && below % 2 = 0)) then (below, e)
    else if high then (below + 1, e)
    else shortestFrom b (e - 1) grids

def dropZeros (n : Nat) (e : Int) : Nat → Nat × Int
  | 0 => (n, e)
  | fuel + 1 => if n % 10 = 0 && n != 0 then dropZeros (n / 10) (e + 1) fuel else (n, e)

def shortest (negative : Bool) (b : Binary) : Decimal :=
  if b.significand = 0 then ⟨negative, 0, 0⟩
  else
    let (num, den) := scaled b.significand 2 b.exponent
    let top : Int := ((Nat.toDigits 10 num).length : Int) - ((Nat.toDigits 10 den).length : Int) + 1
    let (n, e) := shortestFrom b top 25
    let (n, e) := dropZeros n e 25
    ⟨negative, n, e⟩

end Binary

end Cuescript
