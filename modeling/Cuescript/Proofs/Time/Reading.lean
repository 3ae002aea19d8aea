import Cuescript.Proofs.Time.Notation
import Mathlib.Logic.Function.Iterate

/-!
Which texts are durations, and how long they are. Main statement: a text is read exactly if it is,
but for blanks around it, a number of milliseconds of 64 bits or a sequence of parts that stay
within their bounds one by one and together; it is read as that number or as the exact sum, and the
scan ends after no more rounds than the text has characters, and one.
-/
namespace Cuescript

namespace TimeUnit

theorem exists_chars {cs : List Char} {each : Nat} (is : Duration.unitMillis? cs = some each) :
    ∃ u : TimeUnit, cs = u.chars := by
  unfold Duration.unitMillis? at is
  split at is
  · exact ⟨.millisecond, rfl⟩
  · exact ⟨.second, rfl⟩
  · exact ⟨.minute, rfl⟩
  · exact ⟨.hour, rfl⟩
  · exact ⟨.day, rfl⟩
  · exact ⟨.week, rfl⟩
  · cases is

end TimeUnit

namespace TimePart

theorem exists_part {digits unit : List Char} {part : Nat} (nonempty : digits ≠ [])
    (decimal : ∀ c ∈ digits, c.isDigit = true)
    (read : Duration.partMillis? digits unit = some part) :
    ∃ p : TimePart, p.chars = digits ++ unit ∧ p.millis = part := by
  have known : ∃ u : TimeUnit, unit = u.chars := by
    simp only [Duration.partMillis?] at read
    split at read
    · obtain ⟨each, is, -⟩ := Option.bind_eq_some_iff.mp read
      exact TimeUnit.exists_chars is
    · cases read
  obtain ⟨u, rfl⟩ := known
  have part := partMillis?_part ⟨digits, nonempty, decimal, u⟩
  rw [read] at part
  split at part
  · exact ⟨_, rfl, (Option.some.inj part).symm⟩
  · cases part

theorem chars_ne_nil (p : TimePart) : p.chars ≠ [] := by simp [chars, p.nonempty]

end TimePart

namespace Duration

/-- A sum that goes on with what is left of a text, or has ended. -/
inductive Summing where
  | going (total : Nat) (rest : List Char)
  | ended (sum? : Option Nat)

def Summing.round : Summing → Summing
  | ended sum? => ended sum?
  | going total cs =>
    if cs = [] then ended (some total)
    else if cs.takeWhile Char.isDigit = [] then ended none
    else
      let rest := cs.dropWhile Char.isDigit
      match partMillis? (cs.takeWhile Char.isDigit) (rest.takeWhile (! ·.isDigit)) with
      | none => ended none
      | some part =>
        if total + part < Text.wordLimit * 1000 then
          going (total + part) (rest.dropWhile (! ·.isDigit))
        else ended none

/-- All that a round can do, beside what it does to the sum of the whole text. -/
theorem round_cases (total : Nat) (cs : List Char) :
    (cs = [] ∧ (Summing.going total cs).round = .ended (some total) ∧
      sumParts? total cs = some total) ∨
    ((Summing.going total cs).round = .ended none ∧ sumParts? total cs = none) ∨
    ∃ (p : TimePart) (rest : List Char), cs = p.chars ++ rest ∧
      (Summing.going total cs).round = .going (total + p.millis) rest ∧
      sumParts? total cs = sumParts? (total + p.millis) rest := by
  rw [sumParts?, Summing.round]
  by_cases empty : cs = []
  · simp [empty]
  by_cases bare : cs.takeWhile Char.isDigit = []
  · simp [empty, bare]
  simp only [if_neg empty, if_neg bare, dif_neg bare]
  cases read : partMillis? (cs.takeWhile Char.isDigit)
      ((cs.dropWhile Char.isDigit).takeWhile (! ·.isDigit)) with
  | none => simp
  | some part =>
    simp only [Option.bind_some]
    split
    · have decimal : ∀ c ∈ cs.takeWhile Char.isDigit, c.isDigit = true :=
        List.all_eq_true.mp List.all_takeWhile
      obtain ⟨p, chars, rfl⟩ := TimePart.exists_part bare decimal read
      refine .inr (.inr ⟨p, _, ?_, rfl, rfl⟩)
      rw [chars, List.append_assoc, List.takeWhile_append_dropWhile,
        List.takeWhile_append_dropWhile]
    · simp

theorem exists_parts {total sum : Nat} {cs : List Char} (summed : sumParts? total cs = some sum) :
    ∃ ps, cs = TimePart.text ps := by
  rcases round_cases total cs with ⟨rfl, -, -⟩ | ⟨-, refused⟩ | ⟨p, rest, whole, -, further⟩
  · exact ⟨[], rfl⟩
  · rw [refused] at summed
    cases summed
  · obtain ⟨ps, rfl⟩ := exists_parts (further ▸ summed)
    exact ⟨p :: ps, whole⟩
termination_by cs.length
decreasing_by
  have taken := List.length_pos_iff.mpr p.chars_ne_nil
  simp only [whole, List.length_append]
  omega

/-- The sum has ended when each character has had its round, if not before. -/
theorem exists_rounds (total : Nat) (cs : List Char) :
    ∃ n ≤ cs.length + 1, Summing.round^[n] (.going total cs) = .ended (sumParts? total cs) := by
  rcases round_cases total cs with ⟨-, last, sum⟩ | ⟨last, refused⟩ | ⟨p, rest, whole, next, further⟩
  · exact ⟨1, by omega, by simp [last, sum]⟩
  · exact ⟨1, by omega, by simp [last, refused]⟩
  · have taken := List.length_pos_iff.mpr p.chars_ne_nil
    have shorter : rest.length + 1 ≤ cs.length := by simp [whole]; omega
    obtain ⟨n, few, ends⟩ := exists_rounds (total + p.millis) rest
    exact ⟨n + 1, by omega, by rw [Function.iterate_succ_apply, next, ends, further]⟩
termination_by cs.length

inductive Spells : List Char → Nat → Prop where
  | number {cs digits : List Char} (signed : cs = digits ∨ cs = '+' :: digits)
      (nonempty : digits ≠ []) (decimal : ∀ c ∈ digits, c.isDigit = true)
      (fits : Text.digitsValue 0 digits < Text.wordLimit) :
      Spells cs (Text.digitsValue 0 digits)
  | parts {ps : List TimePart} (nonempty : ps ≠ [])
      (fits : ∀ p ∈ ps, p.number < Text.wordLimit ∧ p.millis < Text.wordLimit)
      (bound : TimePart.total ps < Text.wordLimit * 1000) :
      Spells (TimePart.text ps) (TimePart.total ps)

theorem read?_congr {text other : String}
    (same : Text.trim text.toList = Text.trim other.toList) : read? text = read? other := by
  simp only [read?, same]

/-- A number of milliseconds has 64 bits. -/
theorem readInteger_word_iff {n : Int} {cs : List Char} :
    Text.readInteger 0 (Text.wordLimit - 1) cs = .ok n ↔
    ∃ digits, (cs = digits ∨ cs = '+' :: digits) ∧ digits ≠ [] ∧ (∀ c ∈ digits, c.isDigit = true) ∧
      Text.digitsValue 0 digits < Text.wordLimit ∧ Text.digitsValue 0 digits = n := by
  have last : (Text.wordLimit : Int) - 1 = (Text.wordLimit - 1 : Nat) := by decide
  have below (m : Nat) : m ≤ Text.wordLimit - 1 ↔ m < Text.wordLimit := by
    rw [Text.wordLimit_eq]
    omega
  simp only [last, Text.readInteger_ok_iff, below]

theorem read?_eq_some_iff {text : String} {d : Duration} :
    read? text = some d ↔ ∃ n, Spells (Text.trim text.toList) n ∧ d = ofMillis n := by
  constructor
  · intro read
    unfold read? at read
    dsimp only at read
    split at read
    · cases read
    · rename_i more
      split at read
      · rename_i n number
        obtain ⟨digits, signed, nonempty, decimal, fits, rfl⟩ := readInteger_word_iff.mp number
        exact ⟨_, .number signed nonempty decimal fits, (Option.some.inj read).symm⟩
      · obtain ⟨sum, summed, rfl⟩ := Option.map_eq_some_iff.mp read
        obtain ⟨ps, whole⟩ := exists_parts summed
        have nonempty : ps ≠ [] := by
          rintro rfl
          exact more whole
        rw [whole, TimePart.sumParts?_text (by decide), Nat.zero_add] at summed
        obtain ⟨⟨fits, bound⟩, ⟨⟩⟩ := Option.ite_none_right_eq_some.mp summed
        rw [whole]
        exact ⟨_, .parts nonempty (fun p there => ⟨TimePart.number_lt (fits p there), fits p there⟩)
          bound, rfl⟩
  · rintro ⟨n, spells, rfl⟩
    generalize is : Text.trim text.toList = cs at spells
    cases spells with
    | number signed nonempty decimal fits =>
      have number := readInteger_word_iff.mpr ⟨_, signed, nonempty, decimal, fits, rfl⟩
      have more : cs ≠ [] := by rcases signed with rfl | rfl <;> simp [nonempty]
      simp only [read?, is, if_neg more, number, Int.toNat_natCast]
    | parts nonempty fits bound =>
      rename_i ps
      have same : Text.trim text.toList = Text.trim (String.ofList (TimePart.text ps)).toList := by
        rw [String.toList_ofList, ← is, Text.trim_trim]
      rw [read?_congr same, TimePart.read?_text nonempty,
        if_pos ⟨fun p there => (fits p there).2, bound⟩]

/-- A text is read exactly if it spells a duration, and as what it spells; the scan always ends. -/
theorem read?_spelled (text : String) :
    (∀ d, read? text = some d ↔ ∃ n, Spells (Text.trim text.toList) n ∧ d = ofMillis n) ∧
      ∃ n ≤ (Text.trim text.toList).length + 1,
        Summing.round^[n] (.going 0 (Text.trim text.toList)) =
          .ended (sumParts? 0 (Text.trim text.toList)) :=
  ⟨fun _ => read?_eq_some_iff, exists_rounds 0 _⟩

end Duration

end Cuescript
