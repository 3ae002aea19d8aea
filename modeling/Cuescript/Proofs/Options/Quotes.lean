import Cuescript.Options.Token

/-!
Quotes in option text. Whether a quote is open is told by the number of quotes read; so a text has
no tokens exactly if it holds an odd number of them.
-/
namespace Cuescript.Options

namespace Scan

variable {s : Scan} {c : Char}

theorem inQuotes_flush (s : Scan) : s.flush.inQuotes = s.inQuotes := by
  unfold flush
  split <;> rfl

theorem inQuotes_blank (s : Scan) : s.blank.inQuotes = s.inQuotes := by
  unfold blank
  split
  · rfl
  · exact inQuotes_flush s

theorem inQuotes_separate (s : Scan) (sep : Separator) :
    (s.separate sep).inQuotes = s.inQuotes := by
  unfold separate
  split
  · split <;> rfl
  · rfl

theorem inQuotes_step (other : c ≠ '"') : (s.step c).inQuotes = s.inQuotes := by
  unfold step
  rw [if_neg other]
  split
  · rfl
  · split
    · exact inQuotes_flush s
    · split
      · exact inQuotes_blank s
      · split
        · split
          · exact inQuotes_separate s _
          · rfl
        · rfl

theorem inQuotes_foldl (cs : List Char) (s : Scan) :
    (cs.foldl step s).inQuotes = (s.inQuotes ^^ decide (cs.count '"' % 2 = 1)) := by
  induction cs generalizing s with
  | nil => simp
  | cons c rest ih =>
    rw [List.foldl_cons, ih]
    by_cases quote : c = '"'
    · subst quote
      have flips : (s.step '"').inQuotes = !s.inQuotes := rfl
      have parity (n : Nat) : decide ((n + 1) % 2 = 1) = !decide (n % 2 = 1) := by
        rw [← decide_not, decide_eq_decide]
        omega
      rw [flips, List.count_cons_self, parity, Bool.not_xor, Bool.xor_not]
    · rw [inQuotes_step quote, List.count_cons_of_ne quote]

end Scan

theorem tokenize?_eq_none_iff {text : String} :
    tokenize? text = none ↔ text.toList.count '"' % 2 = 1 := by
  have quotes := Scan.inQuotes_foldl text.toList Scan.start
  rw [show Scan.start.inQuotes = false from rfl, Bool.false_xor] at quotes
  simp [tokenize?, quotes]

theorem even_of_tokenize? {text : String} {tokens : List Token}
    (cut : tokenize? text = some tokens) : text.toList.count '"' % 2 = 0 := by
  have not_odd : ¬ text.toList.count '"' % 2 = 1 := fun odd => by
    rw [tokenize?_eq_none_iff.mpr odd] at cut
    cases cut
  omega

end Cuescript.Options
