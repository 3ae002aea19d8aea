import Cuescript.Proofs.Time.Reading

/-!
What the text of a duration tells. Main statements: a duration of no more milliseconds than a 64-bit
word holds is told as it is rounded, down to the millisecond below one second and up to the second
from there on; the durations that can be read are all whole milliseconds below 2^64 seconds, and of
these and all shorter ones just those of more than 2^64 - 1 seconds cannot be told, since the next
whole second is one too many for a 64-bit word.
-/
namespace Cuescript

namespace TimePart

theorem total_append (ps qs : List TimePart) : total (ps ++ qs) = total ps + total qs := by
  induction ps with
  | nil => simp [total_nil]
  | cons p ps ih => simp [total_cons, ih, Nat.add_assoc]

theorem total_replicate (n : Nat) (p : TimePart) : total (List.replicate n p) = n * p.millis := by
  induction n with
  | zero => simp [total_nil]
  | succ n ih => simp [List.replicate_succ, total_cons, ih, Nat.succ_mul, Nat.add_comm]

/-- As many parts of 2^64 - 1 milliseconds as there are in a number, and one for the rest. -/
def ofMillis (n : Nat) : List TimePart :=
  List.replicate (n / (Text.wordLimit - 1)) (.ofCount (Text.wordLimit - 1) .millisecond) ++
    [.ofCount (n % (Text.wordLimit - 1)) .millisecond]

theorem total_ofMillis (n : Nat) : total (ofMillis n) = n := by
  simp only [ofMillis, total_append, total_replicate, total_cons, total_nil, millis_ofCount,
    TimeUnit.millis, Nat.mul_one, Nat.add_zero]
  exact Nat.div_add_mod' n _

theorem text_replicate (n : Nat) (p q : TimePart) :
    text (List.replicate n p ++ [q]) = (List.replicate n p.chars).flatten ++ q.chars := by
  simp [text, List.flatMap_replicate]

theorem fits_ofMillis (n : Nat) : ∀ p ∈ ofMillis n, p.Fits := by
  have rest : n % (Text.wordLimit - 1) < Text.wordLimit - 1 := Nat.mod_lt _ (by decide)
  intro p there
  simp only [ofMillis, List.mem_append, List.mem_replicate, List.mem_singleton] at there
  rcases there with ⟨-, rfl⟩ | rfl
  · rw [Duration.fits_ofCount]
    decide
  · rw [Duration.fits_ofCount, TimeUnit.millis]
    omega

end TimePart

namespace Duration

variable {c d e : Duration}

theorem rounded_mono (le : d ≤ e) : d.rounded ≤ e.rounded := by
  simp only [rounded, lt_def, le_def, ofSeconds] at *
  split <;> split <;> simp only <;> omega

/-- Rounding does not cross the second. -/
theorem millis_rounded_lt_iff : d.rounded.millis < 1000 ↔ d.millis < 1000 := by
  by_cases short : d.millis < 1000
  · rw [rounded_short short]
    simp only [millis] at *
    omega
  · rw [rounded_long short, shownSeconds_eq]
    simp only [millis, ofSeconds] at *
    omega

theorem text_congr (same : d.rounded = e.rounded) : d.text = e.text := by
  have both : d.millis < 1000 ↔ e.millis < 1000 := by
    rw [← millis_rounded_lt_iff, same, millis_rounded_lt_iff]
  by_cases short : d.millis < 1000
  · have short' := both.mp short
    have millis : d.millis = e.millis := by
      rw [rounded_short short, rounded_short short'] at same
      simp only [mk.injEq, millis] at *
      omega
    simp only [text, millis, if_pos short']
  · have short' := mt both.mpr short
    have seconds : d.shownSeconds = e.shownSeconds := by
      rw [rounded_long short, rounded_long short'] at same
      simp only [ofSeconds, mk.injEq] at same
      omega
    simp only [text, if_neg short, if_neg short', seconds]

theorem text_ne_empty (d : Duration) : d.text ≠ "" := by
  intro empty
  have chars : TimePart.text d.parts = [] := by
    have same := congrArg String.toList d.unspaced_text
    simpa [empty, unspaced] using same.symm
  obtain ⟨p, rest, is⟩ := List.exists_cons_of_ne_nil d.parts_ne_nil
  exact p.chars_ne_nil (List.flatMap_eq_nil_iff.mp chars p (by simp [is]))

theorem legible_of_word (word : d.millis < Text.wordLimit) : d.Legible := by
  rw [legible_iff]
  simp only [le_def, ofSeconds, Text.wordLimit_eq, millis] at *
  omega

/-- The text of a duration gives it back as it is rounded, so a longer one never shows less, and only
durations that are rounded alike have the same text. -/
theorem text_rounds (word : d.millis < Text.wordLimit) (word' : e.millis < Text.wordLimit) :
    d.text? = some d.text ∧ e.text? = some e.text ∧
      read? (unspaced d.text) = some d.rounded ∧ d.text ≠ "" ∧ (d ≤ e → d.rounded ≤ e.rounded) ∧
        (d.text = e.text ↔ d.rounded = e.rounded) := by
  have read {d : Duration} (word : d.millis < Text.wordLimit) :
      read? (unspaced d.text) = some d.rounded := by
    rw [read?_unspaced_text, if_pos (legible_of_word word)]
  refine ⟨text?_of_legible (legible_of_word word), text?_of_legible (legible_of_word word'),
    read word, text_ne_empty d, rounded_mono, ?_, text_congr⟩
  intro same
  exact Option.some.inj ((read word).symm.trans (same ▸ read word'))

/-- One nanosecond more than 59 minutes and 59 seconds is shown as an hour. -/
theorem text_rounds_hour : (⟨3599000000001⟩ : Duration).millis < Text.wordLimit ∧
    (ofSeconds 3600).millis < Text.wordLimit ∧ text? ⟨3599000000001⟩ = (ofSeconds 3600).text? ∧
      read? (unspaced (text ⟨3599000000001⟩)) = some (ofSeconds 3600) ∧
        text ⟨3599000000001⟩ = (ofSeconds 3600).text := by
  have word : (⟨3599000000001⟩ : Duration).millis < Text.wordLimit := by decide
  have word' : (ofSeconds 3600).millis < Text.wordLimit := by decide
  obtain ⟨told, told', read, -, -, same⟩ := text_rounds word word'
  have same := same.mpr (by decide)
  exact ⟨word, word', by rw [told, told', same], read, same⟩

/-! The longest durations that can be read. -/

theorem read?_ofMillis {n : Nat} (bound : n < Text.wordLimit * 1000) :
    read? (String.ofList (TimePart.text (TimePart.ofMillis n))) = some (ofMillis n) := by
  have nonempty : TimePart.ofMillis n ≠ [] := by simp [TimePart.ofMillis]
  have read := TimePart.read?_text nonempty
  rwa [TimePart.total_ofMillis, if_pos ⟨TimePart.fits_ofMillis n, bound⟩] at read

theorem exists_read_iff :
    (∃ text, read? text = some d) ↔ ∃ n < Text.wordLimit * 1000, d = ofMillis n := by
  constructor
  · rintro ⟨text, read⟩
    obtain ⟨n, spells, rfl⟩ := read?_eq_some_iff.mp read
    refine ⟨n, ?_, rfl⟩
    generalize Text.trim text.toList = cs at spells
    cases spells with
    | number signed nonempty decimal fits =>
      exact Nat.lt_of_lt_of_le fits (Nat.le_mul_of_pos_right _ (by decide))
    | parts nonempty fits bound => exact bound
  · rintro ⟨n, bound, rfl⟩
    exact ⟨_, read?_ofMillis bound⟩

theorem seconds_lt_of_read {text : String} (read : read? text = some c) (within : d ≤ c) :
    d.seconds < Text.wordLimit := by
  obtain ⟨n, bound, rfl⟩ := exists_read_iff.mp ⟨text, read⟩
  simp only [le_def, ofMillis, seconds] at *
  omega

/-- All whole milliseconds below 2^64 seconds can be read. Of these and all shorter durations the
seconds stay within a 64-bit word, but rounded up they do so, and the duration is told, exactly up to
2^64 - 1 seconds. What is told is no empty text. -/
theorem read?_told (c : Duration) :
    ((∃ text, read? text = some c) ↔ ∃ n < Text.wordLimit * 1000, c = ofMillis n) ∧
      ∀ text d, read? text = some c → d ≤ c → d.seconds < Text.wordLimit ∧
        (d.shownSeconds < Text.wordLimit ↔ d ≤ ofSeconds (Text.wordLimit - 1)) ∧
          (d.text?.isSome = true ↔ d ≤ ofSeconds (Text.wordLimit - 1)) ∧
            ∀ told ∈ d.text?, told ≠ "" := by
  refine ⟨exists_read_iff, fun text d read within => ?_⟩
  refine ⟨seconds_lt_of_read read within, shownSeconds_lt_iff, text?_isSome_iff, ?_⟩
  intro told is
  obtain ⟨-, ⟨⟩⟩ := Option.ite_none_right_eq_some.mp is
  exact text_ne_empty d

/-- What is left of an hour and a half after 399.6 milliseconds. -/
theorem read?_told_rest : read? "1h30m" = some (ofMillis 5400000) ∧
    ⟨5399600400000⟩ ≤ ofMillis 5400000 ∧ (text? ⟨5399600400000⟩).isSome = true ∧
      ∀ told ∈ text? ⟨5399600400000⟩, told ≠ "" := by
  have read : read? "1h30m" = some (ofMillis 5400000) := by decide +kernel
  have within : ⟨5399600400000⟩ ≤ ofMillis 5400000 := by decide
  obtain ⟨-, -, told, more⟩ := (read?_told _).2 _ _ read within
  exact ⟨read, within, told.mpr (by decide), more⟩

/-- A thousand parts of 2^64 - 1 milliseconds, and one millisecond. -/
def longest : String :=
  String.ofList ((List.replicate 1000 "18446744073709551615ms".toList).flatten ++ "1ms".toList)

theorem longest_eq :
    String.ofList (TimePart.text (TimePart.ofMillis ((Text.wordLimit - 1) * 1000 + 1))) =
      longest := by
  have full : (TimePart.ofCount (Text.wordLimit - 1) .millisecond).chars =
      "18446744073709551615ms".toList := by decide +kernel
  have rest : (TimePart.ofCount 1 .millisecond).chars = "1ms".toList := by decide +kernel
  have quotient : ((Text.wordLimit - 1) * 1000 + 1) / (Text.wordLimit - 1) = 1000 := by decide
  have remainder : ((Text.wordLimit - 1) * 1000 + 1) % (Text.wordLimit - 1) = 1 := by decide
  unfold TimePart.ofMillis
  rw [quotient, remainder, TimePart.text_replicate, full, rest]
  rfl

/-- Rounded up, its seconds are 2^64, and telling it crashes. -/
theorem longest_untold :
    ¬ (∀ text d, read? text = some d → d.shownSeconds < Text.wordLimit ∧
        ∃ told, d.text? = some told ∧ told ≠ "") ∧
      ∃ d, read? longest = some d ∧ d.shownSeconds = Text.wordLimit ∧ d.text? = none := by
  have read : read? longest = some (ofMillis ((Text.wordLimit - 1) * 1000 + 1)) := by
    rw [← longest_eq]
    exact read?_ofMillis (by decide)
  have seconds : (ofMillis ((Text.wordLimit - 1) * 1000 + 1)).shownSeconds = Text.wordLimit := by
    decide
  have untold : (ofMillis ((Text.wordLimit - 1) * 1000 + 1)).text? = none := by
    rw [text?, seconds, if_neg (Nat.lt_irrefl _)]
  refine ⟨fun all => ?_, _, read, seconds, untold⟩
  exact absurd seconds (Nat.ne_of_lt (all _ _ read).1)

end Duration

end Cuescript
