import Mathlib.Data.List.Forall2
import Cuescript.Options.Token

/-!
Option entries written out as text. A value stands in quotes or, if its characters allow it, bare; a
key stands before its value with a separator between, and blanks around the separator; entries are
joined by runs of delimiters. Main statement: the tokens of such a text are the entries, in order.
-/
namespace Cuescript.Options

def isDelimiter (c : Char) : Bool := c = ',' || c = ';' || Text.isBlank c

/-- Belongs to a value that has a key before it, quoted or not. -/
def isPlain (c : Char) : Bool := c ≠ '"' && !isDelimiter c

def isBare (c : Char) : Bool := isPlain c && (Separator.ofChar? c).isNone

structure Blanks where
  chars : List Char
  blank : ∀ c ∈ chars, Text.isBlank c = true

structure Gap where
  chars : List Char
  nonempty : chars ≠ []
  delimits : ∀ c ∈ chars, isDelimiter c = true

structure Key where
  chars : List Char
  nonempty : chars ≠ []
  bare : ∀ c ∈ chars, isBare c = true

/-- A value as it is written: any text but a quote in quotes, or what is allowed outside of them. -/
inductive Spelling (allowed : Char → Bool) where
  | quoted (chars : List Char) (inside : ∀ c ∈ chars, c ≠ '"')
  | unquoted (chars : List Char) (nonempty : chars ≠ []) (outside : ∀ c ∈ chars, allowed c = true)

inductive Entry where
  | named (key : Key) (before : Blanks) (separator : Separator) (after : Blanks)
      (value : Spelling isPlain)
  | positional (value : Spelling isBare)

/-- Entries in order, each with the gap before it but the first. -/
inductive Phrase where
  | nothing
  | entries (first : Entry) (rest : List (Gap × Entry))

namespace Spelling

variable {allowed : Char → Bool}

def value : Spelling allowed → List Char
  | quoted chars _ => chars
  | unquoted chars _ _ => chars

def isQuoted : Spelling allowed → Bool
  | quoted _ _ => true
  | unquoted _ _ _ => false

def text : Spelling allowed → List Char
  | quoted chars _ => '"' :: (chars ++ ['"'])
  | unquoted chars _ _ => chars

theorem value_ne_nil {s : Spelling allowed} (outside : s.isQuoted = false) : s.value ≠ [] := by
  cases s with
  | quoted => cases outside
  | unquoted _ nonempty _ => exact nonempty

end Spelling

namespace Entry

def text : Entry → List Char
  | named key before separator after value =>
    key.chars ++ (before.chars ++ separator.char :: (after.chars ++ value.text))
  | positional value => value.text

/-- A token says what an entry does. Without a key the separator of a token has no meaning. -/
def Is : Entry → Token → Prop
  | named key _ separator _ value, t =>
    t = ⟨some (String.ofList key.chars), separator, String.ofList value.value⟩
  | positional value, t => t.key = none ∧ t.value = String.ofList value.value

end Entry

namespace Phrase

def entryList : Phrase → List Entry
  | nothing => []
  | entries first rest => first :: rest.map Prod.snd

def chars : Phrase → List Char
  | nothing => []
  | entries first rest => first.text ++ rest.flatMap fun e => e.1.chars ++ e.2.text

def text (p : Phrase) : String := String.ofList p.chars

end Phrase

theorem ofChar?_char (sep : Separator) : Separator.ofChar? sep.char = some sep := by
  cases sep <;> rfl

namespace Scan

/-- Nothing has been read since the last token, or nothing but a key and its separator. -/
def waiting (ts : List Token) (key : Option (List Char)) (sep : Separator) : Scan :=
  ⟨ts, key, sep, [], false, false⟩

variable {s : Scan} {ts : List Token} {key : Option (List Char)} {sep : Separator} {c : Char}
  {cs : List Char}

/-! The steps within a value and within a key. -/

theorem step_inside (inside : s.inQuotes = true) (other : c ≠ '"') : s.step c = s.push c := by
  rw [step, if_neg other, if_pos inside]

theorem step_plain (outside : s.inQuotes = false) (plain : isPlain c = true) :
    s.step c = match Separator.ofChar? c with
      | some sep => if s.key.isNone && !s.quoted then s.separate sep else s.push c
      | none => s.push c := by
  simp only [isPlain, isDelimiter, Bool.and_eq_true, decide_eq_true_eq, Bool.not_eq_true',
    Bool.or_eq_false_iff] at plain
  obtain ⟨other, delimits, blank⟩ := plain
  cases known : Separator.ofChar? c <;>
    simp only [step, if_neg other, outside, delimits, blank, Bool.false_eq_true, if_false,
      Bool.or_self, known]

theorem step_keyed (outside : s.inQuotes = false) (keyed : s.key.isSome = true)
    (plain : isPlain c = true) : s.step c = s.push c := by
  rw [step_plain outside plain]
  split
  · exact if_neg (by simp [Option.isSome_iff_ne_none.mp keyed])
  · rfl

theorem step_bare (outside : s.inQuotes = false) (bare : isBare c = true) :
    s.step c = s.push c := by
  obtain ⟨plain, none⟩ := Bool.and_eq_true_iff.mp bare
  rw [step_plain outside plain, Option.isNone_iff_eq_none.mp none]

theorem foldl_push (each : ∀ s' : Scan, s'.inQuotes = s.inQuotes → s'.key = s.key → ∀ c ∈ cs,
    s'.step c = s'.push c) : cs.foldl step s = { s with buffer := s.buffer ++ cs } := by
  induction cs generalizing s with
  | nil => rw [List.append_nil]; rfl
  | cons c rest ih =>
    rw [List.foldl_cons, each s rfl rfl c List.mem_cons_self, ih, push, List.append_assoc]
    · rfl
    · exact fun s' quotes key d member => each s' quotes key d (List.mem_cons_of_mem c member)

theorem foldl_spelling {allowed : Char → Bool} (ts : List Token) (key : Option (List Char))
    (sep : Separator) (value : Spelling allowed)
    (each : ∀ s : Scan, s.inQuotes = false → s.key = key → ∀ c, allowed c = true →
      s.step c = s.push c) :
    value.text.foldl step (waiting ts key sep) =
      ⟨ts, key, sep, value.value, value.isQuoted, false⟩ := by
  cases value with
  | quoted chars inside =>
    have read : chars.foldl step ⟨ts, key, sep, [], true, true⟩ =
        ⟨ts, key, sep, chars, true, true⟩ :=
      foldl_push fun s' quotes _ c member => step_inside quotes (inside c member)
    rw [Spelling.text, List.foldl_cons, List.foldl_append]
    exact congrArg (List.foldl step · ['"']) read
  | unquoted chars _ outside =>
    exact foldl_push fun s' quotes key c member => each s' quotes key c (outside c member)

/-! The steps between entries. -/

theorem step_blank (outside : s.inQuotes = false) (blank : Text.isBlank c = true) :
    s.step c = s.blank := by
  have other : c ≠ '"' := by
    rintro rfl
    cases blank
  have delimits : ¬ (decide (c = ',') || decide (c = ';')) = true := by
    simp only [Bool.or_eq_true, decide_eq_true_eq]
    rintro (rfl | rfl) <;> cases blank
  rw [step, if_neg other, if_neg (by simp [outside]), if_neg delimits, if_pos blank]

theorem step_delimiter (outside : s.inQuotes = false)
    (full : s.key = none ∨ s.buffer ≠ [] ∨ s.quoted = true) (delimits : isDelimiter c = true) :
    s.step c = s.flush := by
  by_cases blank : Text.isBlank c = true
  · rw [step_blank outside blank]
    refine if_neg ?_
    rcases full with none | some | quoted
    · simp [none]
    · simp [some]
    · simp [quoted]
  · have comma : (decide (c = ',') || decide (c = ';')) = true := by
      simpa [isDelimiter, blank] using delimits
    have other : c ≠ '"' := by
      rintro rfl
      cases comma
    rw [step, if_neg other, if_neg (by simp [outside]), if_pos comma]

theorem foldl_delimiters (delimit : ∀ c ∈ cs, isDelimiter c = true) :
    cs.foldl step (waiting ts none sep) = waiting ts none sep := by
  induction cs with
  | nil => rfl
  | cons c rest ih =>
    rw [List.foldl_cons, step_delimiter rfl (.inl rfl) (delimit c List.mem_cons_self)]
    exact ih fun d member => delimit d (List.mem_cons_of_mem c member)

theorem foldl_blanks (blank : ∀ c ∈ cs, Text.isBlank c = true) {k : List Char} :
    cs.foldl step (waiting ts (some k) sep) = waiting ts (some k) sep := by
  induction cs with
  | nil => rfl
  | cons c rest ih =>
    rw [List.foldl_cons, step_blank rfl (blank c List.mem_cons_self)]
    exact ih fun d member => blank d (List.mem_cons_of_mem c member)

theorem step_separator (sep' : Separator) (outside : s.inQuotes = false) (none : s.key = none)
    (quoted : s.quoted = false) : s.step sep'.char = s.separate sep' := by
  have plain : isPlain sep'.char = true := by cases sep' <;> decide
  rw [step_plain outside plain, ofChar?_char]
  exact if_pos (by simp [none, quoted])

/-- A key becomes one when its separator comes, even if blanks have made a token of it before. -/
theorem foldl_key (k : Key) (before : Blanks) (sep' : Separator) :
    (k.chars ++ (before.chars ++ [sep'.char])).foldl step (waiting ts none sep) =
      waiting ts (some k.chars) sep' := by
  have read : k.chars.foldl step (waiting ts none sep) = ⟨ts, none, sep, k.chars, false, false⟩ :=
    foldl_push fun s' quotes _ c member => step_bare quotes (k.bare c member)
  have full : k.chars.isEmpty = false := List.isEmpty_eq_false_iff.mpr k.nonempty
  rw [List.foldl_append, List.foldl_append, read, List.foldl_cons, List.foldl_nil]
  cases blanks : before.chars with
  | nil =>
    rw [List.foldl_nil, step_separator sep' rfl rfl rfl, separate, if_neg (by simp [full])]
    rfl
  | cons c rest =>
    have first := before.blank c (by simp [blanks])
    have others : ∀ d ∈ rest, isDelimiter d = true := fun d member => by
      simp [isDelimiter, before.blank d (by simp [blanks, member])]
    have flushed : (Scan.mk ts none sep k.chars false false).step c =
        waiting (ts ++ [⟨none, sep, String.ofList k.chars⟩]) none sep := by
      rw [step_blank rfl first]
      simp [blank, flush, full, waiting]
    rw [List.foldl_cons, flushed, foldl_delimiters others, step_separator sep' rfl rfl rfl]
    simp [separate, waiting]

/-- A token has been read, but for the delimiter that ends it. -/
structure Ends (s : Scan) (ts : List Token) (t : Token) : Prop where
  outside : s.inQuotes = false
  full : s.buffer ≠ [] ∨ s.quoted = true
  flush : s.flush = waiting (ts ++ [t]) none s.separator

theorem ends_value {value : List Char} {quoted : Bool} (full : quoted = false → value ≠ []) :
    Ends ⟨ts, key, sep, value, quoted, false⟩ ts
      ⟨key.map String.ofList, sep, String.ofList value⟩ := by
  have some : value ≠ [] ∨ quoted = true := by
    cases quoted with
    | true => exact .inr rfl
    | false => exact .inl (full rfl)
  refine ⟨rfl, some, if_neg ?_⟩
  rcases some with some | quoted
  · simp [some]
  · simp [quoted]

theorem foldl_entry (e : Entry) (ts : List Token) (sep : Separator) :
    ∃ t, e.Is t ∧ Ends (e.text.foldl step (waiting ts none sep)) ts t := by
  cases e with
  | named key before separator after value =>
    have read := foldl_spelling ts (some key.chars) separator value
      fun s outside keyed c plain => step_keyed outside (keyed ▸ rfl) plain
    have whole : (Entry.named key before separator after value).text.foldl step
        (waiting ts none sep) =
          ⟨ts, some key.chars, separator, value.value, value.isQuoted, false⟩ := by
      rw [Entry.text, ← List.singleton_append, ← List.append_assoc before.chars,
        ← List.append_assoc, List.foldl_append, foldl_key, List.foldl_append,
        foldl_blanks after.blank, read]
    exact ⟨_, rfl, whole ▸ ends_value value.value_ne_nil⟩
  | positional value =>
    have whole := foldl_spelling ts none sep value
      fun s outside _ c bare => step_bare outside bare
    rw [Entry.text, whole]
    exact ⟨_, ⟨rfl, rfl⟩, ends_value value.value_ne_nil⟩

theorem Ends.foldl_gap {t : Token} (ends : Ends s ts t) (gap : Gap) :
    gap.chars.foldl step s = waiting (ts ++ [t]) none s.separator := by
  cases chars : gap.chars with
  | nil => exact absurd chars gap.nonempty
  | cons c rest =>
    have delimits : ∀ d ∈ c :: rest, isDelimiter d = true := chars ▸ gap.delimits
    rw [List.foldl_cons,
      step_delimiter ends.outside (.inr ends.full) (delimits c List.mem_cons_self), ends.flush]
    exact foldl_delimiters fun d member => delimits d (List.mem_cons_of_mem c member)

theorem foldl_entries (first : Entry) (rest : List (Gap × Entry)) (ts : List Token)
    (sep : Separator) :
    ∃ tokens, List.Forall₂ Entry.Is (first :: rest.map Prod.snd) tokens ∧
      let s := (Phrase.entries first rest).chars.foldl step (waiting ts none sep)
      s.inQuotes = false ∧ s.flush.tokens = ts ++ tokens := by
  induction rest generalizing first ts sep with
  | nil =>
    obtain ⟨t, is, ends⟩ := foldl_entry first ts sep
    refine ⟨[t], .cons is .nil, ?_⟩
    rw [Phrase.chars, List.flatMap_nil, List.append_nil]
    exact ⟨ends.outside, congrArg Scan.tokens ends.flush⟩
  | cons next rest ih =>
    obtain ⟨gap, second⟩ := next
    obtain ⟨t, is, ends⟩ := foldl_entry first ts sep
    obtain ⟨tokens, others, outside, flushed⟩ := ih second (ts ++ [t])
      (first.text.foldl step (waiting ts none sep)).separator
    have split : (Phrase.entries first ((gap, second) :: rest)).chars =
        first.text ++ (gap.chars ++ (Phrase.entries second rest).chars) := by
      simp [Phrase.chars]
    refine ⟨t :: tokens, .cons is others, ?_⟩
    rw [split, List.foldl_append, List.foldl_append, ends.foldl_gap gap]
    refine ⟨outside, flushed.trans ?_⟩
    rw [List.append_assoc, List.singleton_append]

end Scan

/-- The tokens of a phrase are its entries, in order. -/
theorem tokenize_phrase (p : Phrase) :
    ∃ tokens, tokenize? p.text = some tokens ∧ List.Forall₂ Entry.Is p.entryList tokens := by
  cases p with
  | nothing => exact ⟨[], rfl, .nil⟩
  | entries first rest =>
    obtain ⟨tokens, entries, outside, flushed⟩ := Scan.foldl_entries first rest [] .equals
    refine ⟨tokens, ?_, entries⟩
    rw [tokenize?, Phrase.text, String.toList_ofList]
    refine (if_neg ?_).trans (congrArg some flushed)
    exact Bool.eq_false_iff.mp outside

example : tokenize? "to = \"a; b\",at:12:30  \"\" ; 7" =
    some [⟨some "to", .equals, "a; b"⟩, ⟨some "at", .colon, "12:30"⟩, ⟨none, .colon, ""⟩,
      ⟨none, .colon, "7"⟩] := by decide +kernel

end Cuescript.Options
