import Cuescript.Proofs.Options.Quotes
import Cuescript.Proofs.Options.Series
import Mathlib.Data.List.Induction

/-!
The characters of option text and of its tokens. Quotes are in no token, nor are delimiters outside
of quotes; every other character is part of a key or a value, or stands between the two. Main
statement: what the tokens of a text spell, one behind the other, is the text without these
characters, each of the others once and in its place.
-/
namespace Cuescript.Options

def Token.spelled (t : Token) : List Char :=
  match t.key with
  | some key => key.toList ++ t.separator.char :: t.value.toList
  | none => t.value.toList

/-- An odd number of quotes stands before the position, so one is open there. -/
def isInside (cs : List Char) (k : Nat) : Bool := (cs.take k).count '"' % 2 = 1

def isKept (inside : Bool) (c : Char) : Bool := c ≠ '"' && (inside || !isDelimiter c)

/-- A text without its quotes and without the delimiters outside of them. -/
def kept (cs : List Char) : List Char :=
  (cs.zipIdx.filter fun (c, k) => isKept (isInside cs k) c).map Prod.fst

theorem isInside_append (cs ds : List Char) {k : Nat} (within : k ≤ cs.length) :
    isInside (cs ++ ds) k = isInside cs k := by
  rw [isInside, isInside, List.take_append_of_le_length within]

theorem kept_concat (cs : List Char) (c : Char) :
    kept (cs ++ [c]) = kept cs ++ if isKept (isInside cs cs.length) c then [c] else [] := by
  have front : cs.zipIdx.filter (fun (c', k) => isKept (isInside (cs ++ [c]) k) c') =
      cs.zipIdx.filter fun (c', k) => isKept (isInside cs k) c' := by
    refine List.filter_congr fun (c', k) member => ?_
    have within : k ≤ cs.length := Nat.le_of_lt (List.snd_lt_of_mem_zipIdx member)
    exact congrArg (isKept · c') (isInside_append cs [c] within)
  have inside : isInside (cs ++ [c]) cs.length = isInside cs cs.length :=
    isInside_append cs [c] (Nat.le_refl _)
  rw [kept, List.zipIdx_append, List.filter_append, front, List.map_append, kept]
  cases keeps : isKept (isInside cs cs.length) c <;> simp [inside, keeps]

namespace Scan

variable {s : Scan} {c : Char}

def token (s : Scan) : Token := ⟨s.key.map String.ofList, s.separator, String.ofList s.buffer⟩

/-- All that has been read, but for the characters that belong to no token. -/
def spelled (s : Scan) : List Char := (s.tokens ++ [s.token]).flatMap Token.spelled

theorem spelled_push (s : Scan) (c : Char) : (s.push c).spelled = s.spelled ++ [c] := by
  cases key : s.key <;> simp [spelled, token, push, Token.spelled, key]

theorem spelled_flush (s : Scan) : s.flush.spelled = s.spelled := by
  unfold flush
  split
  · rfl
  · simp [spelled, token, Token.spelled]

theorem spelled_blank (s : Scan) : s.blank.spelled = s.spelled := by
  unfold blank
  split
  · rfl
  · exact spelled_flush s

/-- A key has been spelled before its separator comes, as a value or as the last token. -/
theorem spelled_separate (sep : Separator) (none : s.key = none) :
    (s.separate sep).spelled = s.spelled ++ [sep.char] := by
  unfold separate
  split
  · rename_i hollow
    split
    · -- the last token is taken back: its value is spelled by the key now
      rename_i earlier value last
      obtain ⟨before, tokens⟩ := List.getLast?_eq_some_iff.mp last
      simp [spelled, token, Token.spelled, none, tokens, List.isEmpty_iff.mp hollow]
    · rw [← spelled_push]
      simp [spelled, token, push, Token.spelled, none]
  · simp [spelled, token, Token.spelled, none]

/-- A step adds its character, or nothing if the character belongs to no token. -/
theorem spelled_step (s : Scan) (c : Char) :
    (s.step c).spelled = s.spelled ++ if isKept s.inQuotes c then [c] else [] := by
  by_cases quote : c = '"'
  · subst quote
    rw [isKept, if_neg (by simp), List.append_nil]
    rfl
  by_cases inside : s.inQuotes = true
  · rw [step_inside inside quote, spelled_push, isKept, if_pos (by simp [quote, inside])]
  have outside : s.inQuotes = false := Bool.eq_false_iff.mpr inside
  by_cases delimits : isDelimiter c = true
  · rw [isKept, if_neg (by simp [outside, delimits]), List.append_nil]
    by_cases blank : Text.isBlank c = true
    · rw [step_blank outside blank, spelled_blank]
    · have divides : (decide (c = ',') || decide (c = ';')) = true := by
        simpa [isDelimiter, blank] using delimits
      rw [step, if_neg quote, if_neg inside, if_pos divides, spelled_flush]
  · have plain : isPlain c = true := by simp [isPlain, quote, delimits]
    rw [isKept, if_pos (by simp [quote, delimits]), step_plain outside plain]
    split
    · rename_i sep known
      split
      · rename_i bare
        rw [← char_of_ofChar? known]
        exact spelled_separate sep (Option.isNone_iff_eq_none.mp (Bool.and_eq_true_iff.mp bare).1)
      · exact spelled_push s c
    · exact spelled_push s c

theorem spelled_foldl (cs : List Char) : (cs.foldl step start).spelled = kept cs := by
  -- by the last character, since what is kept of a text depends on the quotes before
  induction cs using List.reverseRecOn with
  | nil => rfl
  | append_singleton cs c ih =>
    have quotes : (cs.foldl step start).inQuotes = isInside cs cs.length := by
      rw [inQuotes_foldl, isInside, List.take_length]
      exact Bool.false_xor _
    rw [List.foldl_append, List.foldl_cons, List.foldl_nil, spelled_step, ih, quotes, kept_concat]

theorem spelled_flush_tokens (s : Scan) : s.flush.tokens.flatMap Token.spelled = s.spelled := by
  unfold flush
  split
  · rename_i hollow
    simp only [Bool.and_eq_true, List.isEmpty_iff, Option.isNone_iff_eq_none] at hollow
    simp [spelled, token, Token.spelled, hollow]
  · rfl

end Scan

/-- A text has tokens unless it holds an odd number of quotes, and they spell what is kept of it. -/
theorem tokenize?_spells (text : String) :
    (tokenize? text).map (·.flatMap Token.spelled) =
      if text.toList.count '"' % 2 = 1 then none else some (kept text.toList) := by
  split
  · rename_i odd
    rw [tokenize?_eq_none_iff.mpr odd, Option.map_none]
  · rename_i even
    cases cut : tokenize? text with
    | none => exact absurd (tokenize?_eq_none_iff.mp cut) even
    | some tokens =>
      rw [tokenize?] at cut
      split at cut
      · cases cut
      · cases cut
        rw [Option.map_some, Scan.spelled_flush_tokens, Scan.spelled_foldl]

example : kept "to = \"a; b\", \"\" 7".toList = "to=a; b7".toList := by decide

end Cuescript.Options
