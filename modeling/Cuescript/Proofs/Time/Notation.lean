import Cuescript.Proofs.Text.Numerals
import Cuescript.Time.Notation

/-!
Durations in writing, part by part. Main statements: a sequence of parts is read as the sum of them
if each part and the sum stay within their bounds, and as nothing else; so is the text of a duration
once the blanks are taken out of it, and it gives the duration as it is shown: whole milliseconds
below one second, and from there on the seconds rounded up.
-/
namespace Cuescript

inductive TimeUnit where
  | millisecond
  | second
  | minute
  | hour
  | day
  | week
  deriving DecidableEq

namespace TimeUnit

def chars : TimeUnit → List Char
  | millisecond => ['m', 's']
  | second => ['s']
  | minute => ['m']
  | hour => ['h']
  | day => ['d']
  | week => ['w']

def millis : TimeUnit → Nat
  | millisecond => 1
  | second => 1000
  | minute => 60000
  | hour => 3600000
  | day => 86400000
  | week => 604800000

theorem unitMillis?_chars (u : TimeUnit) : Duration.unitMillis? u.chars = some u.millis := by
  cases u <;> rfl

theorem millis_pos (u : TimeUnit) : 0 < u.millis := by cases u <;> decide

theorem chars_ne_nil (u : TimeUnit) : u.chars ≠ [] := by cases u <;> decide

theorem letters (u : TimeUnit) : ∀ c ∈ u.chars, c.isDigit = false ∧ c ≠ ' ' := by
  cases u <;> simp [chars]

theorem last_isBlank (u : TimeUnit) : ∀ c ∈ u.chars.getLast?, Text.isBlank c = false := by
  cases u <;> simp [chars] <;> rfl

end TimeUnit

structure TimePart where
  digits : List Char
  nonempty : digits ≠ []
  decimal : ∀ c ∈ digits, c.isDigit = true
  unit : TimeUnit

namespace TimePart

def ofCount (n : Nat) (u : TimeUnit) : TimePart where
  digits := Text.decimal n
  nonempty := Text.decimal_ne_nil n
  decimal := fun _ => Text.isDigit_of_mem_decimal
  unit := u

def chars (p : TimePart) : List Char := p.digits ++ p.unit.chars

def millis (p : TimePart) : Nat := Text.digitsValue 0 p.digits * p.unit.millis

def Fits (p : TimePart) : Prop := p.millis < Text.wordLimit

instance (p : TimePart) : Decidable p.Fits := inferInstanceAs (Decidable (_ < _))

def text (ps : List TimePart) : List Char := ps.flatMap chars

def total : List TimePart → Nat
  | [] => 0
  | p :: ps => p.millis + total ps

variable {p : TimePart} {ps : List TimePart} {rest : List Char}

theorem total_nil : total [] = 0 := rfl

theorem total_cons (p : TimePart) (ps : List TimePart) :
    total (p :: ps) = p.millis + total ps := by
  rw [total]

theorem millis_ofCount (n : Nat) (u : TimeUnit) : (ofCount n u).millis = n * u.millis := by
  rw [millis, ofCount, Text.digitsValue_decimal]

def number (p : TimePart) : Nat := Text.digitsValue 0 p.digits

theorem number_lt (fits : p.Fits) : p.number < Text.wordLimit :=
  Nat.lt_of_le_of_lt (Nat.le_mul_of_pos_right _ p.unit.millis_pos) fits

theorem partMillis?_part (p : TimePart) :
    Duration.partMillis? p.digits p.unit.chars = if p.Fits then some p.millis else none := by
  unfold Duration.partMillis?
  rw [p.unit.unitMillis?_chars]
  by_cases fits : p.Fits
  · rw [if_pos fits]
    exact (if_pos (number_lt fits)).trans (if_pos fits)
  · rw [if_neg fits]
    dsimp only
    split
    · exact if_neg fits
    · rfl

/-- What follows a part begins with a digit, if there is anything. -/
theorem stops_text (ps : List TimePart) : Text.Stops (! ·.isDigit) (text ps) := by
  cases ps with
  | nil => exact Text.stops_nil _
  | cons p ps =>
    obtain ⟨d, ds, is⟩ := List.exists_cons_of_ne_nil p.nonempty
    have digit := p.decimal d (by simp [is])
    simp [text, chars, is, Text.stops_cons, digit]

theorem stops_unit (p : TimePart) (rest : List Char) :
    Text.Stops Char.isDigit (p.unit.chars ++ rest) := by
  obtain ⟨c, cs, is⟩ := List.exists_cons_of_ne_nil p.unit.chars_ne_nil
  have letter := p.unit.letters c (by simp [is])
  simp [is, Text.stops_cons, letter.1]

theorem sumParts?_cons (p : TimePart) (ps : List TimePart) (before : Nat) :
    Duration.sumParts? before (text (p :: ps)) =
      if p.Fits ∧ before + p.millis < Text.wordLimit * 1000 then
        Duration.sumParts? (before + p.millis) (text ps)
      else none := by
  have whole : text (p :: ps) = p.digits ++ (p.unit.chars ++ text ps) := by simp [text, chars]
  have number := Text.takeWhile_run p.decimal (p.stops_unit (text ps))
  have behind := Text.dropWhile_run p.decimal (p.stops_unit (text ps))
  have letters : ∀ c ∈ p.unit.chars, (!c.isDigit) = true := fun c member => by
    simp [(p.unit.letters c member).1]
  have more : ¬ text (p :: ps) = [] := by simp [whole, p.nonempty]
  rw [Duration.sumParts?, if_neg more, whole, number, behind, dif_neg p.nonempty]
  dsimp only
  rw [Text.takeWhile_run letters (stops_text ps), Text.dropWhile_run letters (stops_text ps),
    partMillis?_part]
  by_cases fits : p.Fits
  · rw [if_pos fits, Option.bind_some]
    simp only [fits, true_and]
  · rw [if_neg fits, if_neg fun both => fits both.1, Option.bind_none]

theorem sumParts?_text {before : Nat} (inside : before < Text.wordLimit * 1000)
    (ps : List TimePart) : Duration.sumParts? before (text ps) =
      if (∀ p ∈ ps, p.Fits) ∧ before + total ps < Text.wordLimit * 1000 then
        some (before + total ps)
      else none := by
  induction ps generalizing before with
  | nil => simp [text, total, Duration.sumParts?, inside]
  | cons p ps ih =>
    have sum : before + total (p :: ps) = before + p.millis + total ps := by
      rw [total_cons, Nat.add_assoc]
    rw [sumParts?_cons, sum]
    by_cases first : p.Fits ∧ before + p.millis < Text.wordLimit * 1000
    · rw [if_pos first, ih first.2]
      simp [first.1]
    · rw [if_neg first, if_neg]
      rintro ⟨fits, bound⟩
      exact first ⟨fits p List.mem_cons_self, by omega⟩

/-- A text of parts is neither a number nor set in blanks. -/
theorem last_text (nonempty : ps ≠ []) :
    ∀ c ∈ (text ps).getLast?, c.isDigit = false ∧ Text.isBlank c = false := by
  obtain ⟨front, p, rfl⟩ : ∃ front p, ps = front ++ [p] :=
    ⟨_, _, (List.dropLast_concat_getLast nonempty).symm⟩
  have last : (text (front ++ [p])).getLast? = p.unit.chars.getLast? := by
    simp only [text, chars, List.flatMap_append, List.flatMap_cons, List.flatMap_nil,
      List.append_nil, ← List.append_assoc]
    rw [List.getLast?_append, Option.or_of_isSome]
    simp [p.unit.chars_ne_nil]
  intro c is
  rw [last] at is
  exact ⟨(p.unit.letters c (List.mem_of_getLast? is)).1, p.unit.last_isBlank c is⟩

theorem read?_text (nonempty : ps ≠ []) : Duration.read? (String.ofList (text ps)) =
    if (∀ p ∈ ps, p.Fits) ∧ total ps < Text.wordLimit * 1000 then
      some (Duration.ofMillis (total ps))
    else none := by
  have last := last_text nonempty
  obtain ⟨p, rest, rfl⟩ := List.exists_cons_of_ne_nil nonempty
  obtain ⟨d, ds, is⟩ := List.exists_cons_of_ne_nil p.nonempty
  have begins : ∃ cs, text (p :: rest) = d :: cs := by simp [text, chars, is]
  obtain ⟨cs, whole⟩ := begins
  have digit := p.decimal d (by simp [is])
  have front : Text.Stops Text.isBlank (text (p :: rest)) := by
    rw [whole, Text.stops_cons, ← Bool.not_eq_true]
    intro blank
    simp [Text.isDigit_of_isBlank blank] at digit
  have back : Text.Stops Text.isBlank (text (p :: rest)).reverse := by
    intro c first
    rw [List.head?_reverse] at first
    exact (last c first).2
  have trimmed := Text.trim_of_stops front back
  unfold Duration.read?
  rw [String.toList_ofList, trimmed]
  dsimp only
  rw [if_neg (by simp [whole])]
  split
  · rename_i n number
    obtain ⟨c, is⟩ : ∃ c, (text (p :: rest)).getLast? = some c := by
      rw [whole]
      exact ⟨_, List.getLast?_eq_some_getLast (List.cons_ne_nil d cs)⟩
    have digit := Text.isDigit_last_of_readInteger number c is
    simp [(last c is).1] at digit
  · rw [sumParts?_text (by decide), Nat.zero_add]
    split <;> rfl

end TimePart

namespace Duration

/-- What a text of a duration counts: the milliseconds below one second, else the seconds. -/
def counts (d : Duration) : List (Nat × TimeUnit) :=
  if d.millis < 1000 then [(d.millis, .millisecond)]
  else
    [(d.shownSeconds / 86400, .day), (d.shownSeconds % 86400 / 3600, .hour),
      (d.shownSeconds % 3600 / 60, .minute), (d.shownSeconds % 60, .second)].filter (·.1 != 0)

def parts (d : Duration) : List TimePart := d.counts.map fun c => .ofCount c.1 c.2

/-- Down to whole milliseconds below one second, and up to whole seconds from there on. -/
def rounded (d : Duration) : Duration :=
  if d < ofSeconds 1 then ⟨d.nanos / 1000000 * 1000000⟩
  else ⟨(d.nanos + 999999999) / 1000000000 * 1000000000⟩

/-- The text gives no more days than a 64-bit word holds in milliseconds. -/
def Legible (d : Duration) : Prop :=
  d.millis < 1000 ∨ d.shownSeconds / 86400 * TimeUnit.day.millis < Text.wordLimit

instance (d : Duration) : Decidable d.Legible := inferInstanceAs (Decidable (_ ∨ _))

def unspaced (text : String) : String := String.ofList (text.toList.filter (· != ' '))

theorem shownSeconds_eq (d : Duration) : d.shownSeconds = (d.nanos + 999999999) / 1000000000 := by
  rw [shownSeconds, seconds, hasFraction]
  split
  · rename_i fraction
    have fraction := bne_iff_ne.mp fraction
    omega
  · rename_i whole
    have whole : d.nanos % 1000000000 = 0 := by simpa using whole
    omega

theorem shownSeconds_pos {d : Duration} (long : ¬ d.millis < 1000) : 0 < d.shownSeconds := by
  rw [millis] at long
  rw [shownSeconds_eq]
  omega

theorem rounded_short {d : Duration} (short : d.millis < 1000) :
    d.rounded = ⟨d.nanos / 1000000 * 1000000⟩ := by
  refine if_pos ?_
  simp only [millis, lt_def, ofSeconds] at *
  omega

theorem rounded_long {d : Duration} (long : ¬ d.millis < 1000) :
    d.rounded = ofSeconds d.shownSeconds := by
  rw [shownSeconds_eq]
  refine if_neg ?_
  simp only [millis, lt_def, ofSeconds] at *
  omega

theorem secondParts_eq {d : Duration} (long : ¬ d.millis < 1000) :
    secondParts d.shownSeconds = d.parts.map TimePart.chars := by
  unfold secondParts parts counts
  rw [if_neg long]
  simp only [List.filter_cons, List.filter_nil]
  -- each of the four counts is written or left out
  repeat' split
  all_goals rfl

theorem unspaced_chars (p : TimePart) : p.chars.filter (· != ' ') = p.chars := by
  refine List.filter_eq_self.mpr fun c member => bne_iff_ne.mpr ?_
  rcases List.mem_append.mp member with digit | letter
  · rintro rfl
    exact absurd (p.decimal _ digit) (by decide)
  · exact (p.unit.letters c letter).2

theorem unspaced_parts (ps : List TimePart) :
    ([' '].intercalate (ps.map TimePart.chars)).filter (· != ' ') = TimePart.text ps := by
  induction ps with
  | nil => rfl
  | cons p ps ih =>
    cases ps with
    | nil => simp [TimePart.text, unspaced_chars, List.intercalate]
    | cons q ps =>
      simp only [List.map_cons, List.intercalate_cons_cons, List.filter_append,
        unspaced_chars] at ih ⊢
      rw [ih]
      simp [TimePart.text]

theorem unspaced_text (d : Duration) :
    unspaced d.text = String.ofList (TimePart.text d.parts) := by
  unfold unspaced text
  rw [String.toList_ofList]
  split
  · rename_i short
    have single : d.parts = [.ofCount d.millis .millisecond] := by simp [parts, counts, short]
    rw [single]
    have chars : Text.decimal d.millis ++ ['m', 's'] =
        [' '].intercalate ([TimePart.ofCount d.millis .millisecond].map TimePart.chars) := by
      simp [List.intercalate, TimePart.chars, TimePart.ofCount, TimeUnit.chars]
    rw [chars, unspaced_parts]
  · rename_i long
    rw [secondParts_eq long, unspaced_parts]

theorem total_filter (cs : List (Nat × TimeUnit)) :
    TimePart.total ((cs.filter (·.1 != 0)).map fun c => .ofCount c.1 c.2) =
      TimePart.total (cs.map fun c => .ofCount c.1 c.2) := by
  induction cs with
  | nil => rfl
  | cons c cs ih =>
    obtain ⟨n, u⟩ := c
    cases n with
    | zero => simpa [TimePart.total_cons, TimePart.millis_ofCount] using ih
    | succ n => simpa [TimePart.total_cons] using ih

theorem total_parts (d : Duration) :
    TimePart.total d.parts = if d.millis < 1000 then d.millis else d.shownSeconds * 1000 := by
  unfold parts counts
  split
  · simp only [List.map_cons, List.map_nil, TimePart.total_cons, TimePart.total_nil,
      TimePart.millis_ofCount]
    exact Nat.mul_one _
  · rw [total_filter]
    simp only [List.map_cons, List.map_nil, TimePart.total_cons, TimePart.total_nil,
      TimePart.millis_ofCount]
    simp only [TimeUnit.millis]
    omega

theorem ofMillis_total_parts (d : Duration) : ofMillis (TimePart.total d.parts) = d.rounded := by
  rw [total_parts]
  split
  · rename_i short
    rw [rounded_short short, ofMillis, millis]
  · rename_i long
    rw [rounded_long long, ofMillis, ofSeconds, Nat.mul_assoc]

theorem fits_ofCount {n : Nat} {u : TimeUnit} :
    (TimePart.ofCount n u).Fits ↔ n * u.millis < Text.wordLimit := by
  rw [TimePart.Fits, TimePart.millis_ofCount]

theorem fits_of_lt {n : Nat} {u : TimeUnit} (few : n < 1000) : (TimePart.ofCount n u).Fits := by
  have week : u.millis ≤ 604800000 := by cases u <;> decide
  have product : n * u.millis ≤ 1000 * 604800000 := Nat.mul_le_mul (Nat.le_of_lt few) week
  rw [fits_ofCount, Text.wordLimit_eq]
  omega

/-- Only the number of days may be too large. -/
theorem fits_parts (d : Duration) : (∀ p ∈ d.parts, p.Fits) ↔
    d.millis < 1000 ∨ d.shownSeconds / 86400 * TimeUnit.day.millis < Text.wordLimit := by
  simp only [parts, List.forall_mem_map]
  unfold counts
  split
  · rename_i short
    simp [short, fits_of_lt short]
  · rename_i long
    rw [or_iff_right long, ← fits_ofCount]
    constructor
    · intro fits
      by_cases none : d.shownSeconds / 86400 = 0
      · exact fits_of_lt (by omega)
      · exact fits (_, .day) (by simp [none])
    · intro days c member
      have listed := (List.mem_filter.mp member).1
      simp only [List.mem_cons, List.not_mem_nil, or_false] at listed
      rcases listed with rfl | rfl | rfl | rfl
      · exact days
      · exact fits_of_lt (by dsimp only; omega)
      · exact fits_of_lt (by dsimp only; omega)
      · exact fits_of_lt (by dsimp only; omega)

theorem parts_ne_nil (d : Duration) : d.parts ≠ [] := by
  intro none
  by_cases short : d.millis < 1000
  · simp [parts, counts, short] at none
  · have total := d.total_parts
    rw [none, TimePart.total_nil, if_neg short] at total
    have := shownSeconds_pos short
    omega

/-- A text of a duration is read as what it shows, if it can be read at all. -/
theorem read?_unspaced_text (d : Duration) :
    read? (unspaced d.text) = if d.Legible then some d.rounded else none := by
  have legible : ((∀ p ∈ d.parts, p.Fits) ∧ TimePart.total d.parts < Text.wordLimit * 1000) ↔
      d.Legible := by
    rw [fits_parts, Legible, total_parts]
    simp only [TimeUnit.millis, Text.wordLimit_eq]
    split <;> omega
  rw [unspaced_text, TimePart.read?_text d.parts_ne_nil, ofMillis_total_parts]
  simp only [legible]

variable {d : Duration}

theorem legible_iff : d.Legible ↔ d ≤ ofSeconds (213503982335 * 86400 - 1) := by
  rw [Legible, shownSeconds_eq, le_def]
  simp only [TimeUnit.millis, Text.wordLimit_eq, millis, ofSeconds]
  omega

theorem shownSeconds_lt_iff :
    d.shownSeconds < Text.wordLimit ↔ d ≤ ofSeconds (Text.wordLimit - 1) := by
  simp only [shownSeconds_eq, le_def, ofSeconds, Text.wordLimit_eq]
  omega

theorem text?_isSome_iff : d.text?.isSome = true ↔ d ≤ ofSeconds (Text.wordLimit - 1) := by
  rw [← shownSeconds_lt_iff, text?]
  split <;> simp [*]

theorem text?_of_legible (legible : d.Legible) : d.text? = some d.text := by
  rw [text?, if_pos]
  rw [legible_iff] at legible
  simp only [shownSeconds_eq, le_def, ofSeconds, Text.wordLimit_eq] at *
  omega

/-- A text that is told can be read up to the days that a 64-bit word holds in milliseconds. -/
theorem read?_unspaced_text? (d : Duration) :
    (d.text?.bind fun text => read? (unspaced text)) =
      if d.Legible then some d.rounded else none := by
  split
  · rename_i legible
    rw [text?_of_legible legible, Option.bind_some, read?_unspaced_text, if_pos legible]
  · rename_i illegible
    rw [text?]
    split
    · rw [Option.bind_some, read?_unspaced_text, if_neg illegible]
    · rfl

theorem le_rounded_iff : d ≤ d.rounded ↔ ofSeconds 1 ≤ d ∨ d.nanos % 1000000 = 0 := by
  simp only [rounded, lt_def, le_def, ofSeconds]
  split <;> simp only <;> omega

/-- What is shown is less than a millisecond short and less than a second long. -/
theorem rounded_near :
    d.nanos < d.rounded.nanos + 1000000 ∧ d.rounded.nanos < d.nanos + 1000000000 := by
  simp only [rounded, lt_def, ofSeconds]
  split <;> simp only <;> omega

end Duration

end Cuescript
