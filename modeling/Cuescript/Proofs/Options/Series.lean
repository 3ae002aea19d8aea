import Cuescript.Proofs.Options.Phrases
import Cuescript.Proofs.Text.Runs

/-!
Option text as a series of items with delimiters between them. An item is a piece of text without
delimiters outside of quotes, read as it stands: a key and a separator in front of a value, or a
bare value, with quotes anywhere in it. Main statements: which pieces are items, and that the tokens
of a series are its items, in order.
-/
namespace Cuescript.Options

def isDivider (c : Char) : Bool := c = ',' || c = ';'

/-- Delimiters stand in quotes only, and every quote is closed. -/
def isClosed (inside : Bool) : List Char → Bool
  | [] => !inside
  | c :: cs =>
    if c = '"' then isClosed (!inside) cs else (inside || !isDelimiter c) && isClosed inside cs

def unquoted (cs : List Char) : List Char := cs.filter (· ≠ '"')

def Keyless (cs : List Char) : Prop :=
  ∀ c ∈ cs.takeWhile (· ≠ '"'), Separator.ofChar? c = none

instance (cs : List Char) : Decidable (Keyless cs) :=
  List.decidableBAll (fun c => Separator.ofChar? c = none) (cs.takeWhile (· ≠ '"'))

inductive Item where
  | named (key : Key) (separator : Separator) (raw : List Char) (closed : isClosed false raw = true)
  | positional (raw : List Char) (nonempty : raw ≠ []) (closed : isClosed false raw = true)
      (keyless : Keyless raw)

namespace Item

def text : Item → List Char
  | named key separator raw _ => key.chars ++ separator.char :: raw
  | positional raw .. => raw

/-- Nothing stands behind the separator, not even quotes. -/
def isHollow : Item → Bool
  | named _ _ raw _ => raw.isEmpty
  | positional .. => false

def Is : Item → Token → Prop
  | named key separator raw _, t =>
    t = ⟨some (String.ofList key.chars), separator, String.ofList (unquoted raw)⟩
  | positional raw .., t => t.key = none ∧ t.value = String.ofList (unquoted raw)

end Item

structure Part where
  gap : List Char
  delimits : ∀ c ∈ gap, isDelimiter c = true
  item : Item

structure Series where
  parts : List Part
  trail : List Char
  delimits : ∀ c ∈ trail, isDelimiter c = true
  apart : parts.IsChain fun _ q => q.gap ≠ []

namespace Series

def items (x : Series) : List Item := x.parts.map (·.item)

def chars (x : Series) : List Char := (x.parts.flatMap fun p => p.gap ++ p.item.text) ++ x.trail

def text (x : Series) : String := String.ofList x.chars

/-- No item takes the one behind it for its value. -/
def Settled (x : Series) : Prop :=
  x.parts.IsChain fun p q => p.item.isHollow = true → ∃ c ∈ q.gap, isDivider c = true

end Series

section Items

variable {c : Char} {cs run rest : List Char}

theorem char_of_ofChar? {sep : Separator} (known : Separator.ofChar? c = some sep) :
    sep.char = c := by
  unfold Separator.ofChar? at known
  split at known <;> cases known <;> rfl

theorem isClosed_cons (other : c ≠ '"') (inside : Bool) :
    isClosed inside (c :: cs) = ((inside || !isDelimiter c) && isClosed inside cs) :=
  if_neg other

theorem isClosed_run (bare : ∀ c ∈ run, isBare c = true)
    (closed : isClosed false (run ++ rest) = true) : isClosed false rest = true := by
  induction run with
  | nil => exact closed
  | cons c run ih =>
    have first : isBare c = true := bare c List.mem_cons_self
    have other : c ≠ '"' := by
      rintro rfl
      cases first
    rw [List.cons_append, isClosed_cons other, Bool.and_eq_true] at closed
    exact ih (fun d member => bare d (List.mem_cons_of_mem c member)) closed.2

theorem ne_quote_of_bare (bare : isBare c = true) : c ≠ '"' := by
  rintro rfl
  cases bare

theorem keyless_run (bare : ∀ c ∈ run, isBare c = true)
    (stops : Text.Stops (fun c => decide (c ≠ '"')) rest) : Keyless (run ++ rest) := by
  have unquoted : ∀ c ∈ run, decide (c ≠ '"') = true := fun c member =>
    decide_eq_true (ne_quote_of_bare (bare c member))
  rw [Keyless, Text.takeWhile_run unquoted stops]
  intro c member
  exact Option.isNone_iff_eq_none.mp (Bool.and_eq_true_iff.mp (bare c member)).2

theorem unquoted_ne_nil (nonempty : cs ≠ []) (quotes : cs.contains '"' = false) :
    unquoted cs ≠ [] := by
  cases cs with
  | nil => exact absurd rfl nonempty
  | cons c rest =>
    have other : c ≠ '"' := by
      rintro rfl
      simp at quotes
    simp [unquoted, other]

/-- Each piece of text without delimiters outside of quotes is an item, unless it begins with a
separator. -/
theorem exists_item (nonempty : cs ≠ []) (closed : isClosed false cs = true)
    (start : Text.Stops (fun c => (Separator.ofChar? c).isSome) cs) : ∃ e : Item, e.text = cs := by
  obtain ⟨run, rest, rfl, bare, stops⟩ := Text.exists_run isBare cs
  have behind := isClosed_run bare closed
  cases rest with
  | nil =>
    have keyless : Keyless (run ++ []) := keyless_run bare (Text.stops_nil _)
    exact ⟨.positional _ nonempty closed keyless, rfl⟩
  | cons c rest =>
    by_cases quote : c = '"'
    · have keyless : Keyless (run ++ c :: rest) :=
        keyless_run bare (Text.stops_cons.mpr (by simp [quote]))
      exact ⟨.positional _ nonempty closed keyless, rfl⟩
    · -- What ends a run of bare characters is a quote or a separator, here a separator.
      rw [isClosed_cons quote, Bool.false_or, Bool.and_eq_true] at behind
      have known : (Separator.ofChar? c).isSome = true := by
        have stop := Text.stops_cons.mp stops
        simpa [isBare, isPlain, quote, behind.1] using stop
      obtain ⟨sep, known⟩ := Option.isSome_iff_exists.mp known
      have sep_is : sep.char = c := char_of_ofChar? known
      have some : run ≠ [] := by
        rintro rfl
        have stop := Text.stops_cons.mp start
        simp [known] at stop
      refine ⟨.named ⟨run, some, bare⟩ sep rest behind.2, ?_⟩
      rw [Item.text, sep_is]

end Items

namespace Scan

variable {s : Scan} {ts : List Token} {t : Token} {sep : Separator} {c : Char} {cs : List Char}
  {hollow : Bool}

theorem step_push (closed : s.inQuotes = false → isDelimiter c = false) (other : c ≠ '"')
    (literal : s.inQuotes = false → (s.key.isNone && !s.quoted) = true →
      Separator.ofChar? c = none) : s.step c = s.push c := by
  cases inside : s.inQuotes with
  | true => exact step_inside inside other
  | false =>
    rw [step_plain inside (by simp [isPlain, other, closed inside])]
    split
    · rename_i sep known
      refine if_neg fun keyless => ?_
      rw [literal inside keyless] at known
      cases known
    · rfl

theorem foldl_closed (closed : isClosed s.inQuotes cs = true)
    (keyless : (s.key.isNone && !s.quoted) = true → Keyless cs) :
    cs.foldl step s =
      { s with buffer := s.buffer ++ unquoted cs, quoted := s.quoted || cs.contains '"',
               inQuotes := false } := by
  induction cs generalizing s with
  | nil =>
    have outside : s.inQuotes = false := by simpa [isClosed] using closed
    cases s
    cases outside
    simp [unquoted]
  | cons c rest ih =>
    rw [List.foldl_cons]
    by_cases quote : c = '"'
    · subst quote
      have flips : s.step '"' = { s with inQuotes := !s.inQuotes, quoted := true } := rfl
      rw [flips, ih closed (by simp)]
      simp [unquoted]
    · rw [isClosed_cons quote, Bool.and_eq_true] at closed
      have front : (s.key.isNone && !s.quoted) = true →
          Separator.ofChar? c = none ∧ Keyless rest := by
        intro literal
        have whole := keyless literal
        rw [Keyless, List.takeWhile_cons_of_pos (by simpa using quote)] at whole
        exact List.forall_mem_cons.mp whole
      have pushes : s.step c = s.push c :=
        step_push (fun outside => by simpa [outside] using closed.1) quote
          fun _ literal => (front literal).1
      have rest_is := @ih (s.push c) closed.2 fun literal => (front literal).2
      rw [pushes, rest_is]
      simp [push, unquoted, quote, Ne.symm quote]

theorem step_divider (outside : s.inQuotes = false) (divides : isDivider c = true) :
    s.step c = s.flush := by
  have other : c ≠ '"' := by
    rintro rfl
    cases divides
  rw [step, if_neg other, if_neg (by simp [outside])]
  exact if_pos divides

/-- An item has been read, but for the delimiter that makes a token of it. If nothing came behind
its separator, the key still waits. -/
inductive Read (ts : List Token) : Scan → Token → Bool → Prop
  | full {s : Scan} {t : Token} (ends : Ends s ts t) : Read ts s t false
  | hollow (key : List Char) (sep : Separator) :
      Read ts (waiting ts (some key) sep) ⟨some (String.ofList key), sep, ""⟩ true

theorem foldl_item (e : Item) (ts : List Token) (sep : Separator) :
    ∃ t, e.Is t ∧ Read ts (e.text.foldl step (waiting ts none sep)) t e.isHollow := by
  cases e with
  | named key separator raw closed =>
    have keyed : (key.chars ++ [separator.char]).foldl step (waiting ts none sep) =
        waiting ts (some key.chars) separator := foldl_key key ⟨[], nofun⟩ separator
    have value : raw.foldl step (waiting ts (some key.chars) separator) =
        ⟨ts, some key.chars, separator, unquoted raw, raw.contains '"', false⟩ :=
      foldl_closed closed nofun
    rw [Item.text, ← List.singleton_append, ← List.append_assoc, List.foldl_append, keyed]
    refine ⟨_, rfl, ?_⟩
    cases raw with
    | nil => exact .hollow key.chars separator
    | cons c rest =>
      rw [value]
      exact .full (ends_value (unquoted_ne_nil (List.cons_ne_nil c rest)))
  | positional raw nonempty closed keyless =>
    have value : raw.foldl step (waiting ts none sep) =
        ⟨ts, none, sep, unquoted raw, raw.contains '"', false⟩ :=
      foldl_closed closed fun _ => keyless
    rw [Item.text, value]
    exact ⟨_, ⟨rfl, rfl⟩, .full (ends_value (unquoted_ne_nil nonempty))⟩

namespace Read

theorem outside (read : Read ts s t hollow) : s.inQuotes = false := by
  cases read with
  | full ends => exact ends.outside
  | hollow => rfl

theorem flush (read : Read ts s t hollow) : s.flush = waiting (ts ++ [t]) none s.separator := by
  cases read with
  | full ends => exact ends.flush
  | hollow => rfl

/-- A delimiter makes the token, unless it is a blank and the key still waits. -/
theorem step_cases (read : Read ts s t hollow) (delimits : isDelimiter c = true) :
    s.step c = s.flush ∨ (hollow = true ∧ isDivider c = false ∧ s.step c = s) := by
  cases read with
  | full ends => exact .inl (step_delimiter ends.outside (.inr ends.full) delimits)
  | hollow key sep =>
    cases divides : isDivider c with
    | true => exact .inl (step_divider rfl divides)
    | false =>
      have blank : Text.isBlank c = true := (Bool.or_eq_true_iff.mp delimits).resolve_left
        (Bool.eq_false_iff.mp divides)
      exact .inr ⟨rfl, rfl, step_blank rfl blank⟩

theorem foldl_gap (read : Read ts s t hollow) (delimit : ∀ c ∈ cs, isDelimiter c = true)
    (apart : cs ≠ []) (divided : hollow = true → ∃ c ∈ cs, isDivider c = true) :
    cs.foldl step s = waiting (ts ++ [t]) none s.separator := by
  induction cs with
  | nil => exact absurd rfl apart
  | cons c rest ih =>
    obtain ⟨first, others⟩ := List.forall_mem_cons.mp delimit
    rw [List.foldl_cons]
    rcases read.step_cases first with flushes | ⟨waits, blank, stays⟩
    · rw [flushes, read.flush, foldl_delimiters others]
    · have later : ∃ d ∈ rest, isDivider d = true := by simpa [blank] using divided waits
      have some : rest ≠ [] := by
        obtain ⟨d, member, _⟩ := later
        exact List.ne_nil_of_mem member
      rw [stays]
      exact ih others some fun _ => later

theorem foldl_trail (read : Read ts s t hollow) (delimit : ∀ c ∈ cs, isDelimiter c = true) :
    (cs.foldl step s).inQuotes = false ∧ (cs.foldl step s).flush.tokens = ts ++ [t] := by
  induction cs with
  | nil => exact ⟨read.outside, congrArg Scan.tokens read.flush⟩
  | cons c rest ih =>
    obtain ⟨first, others⟩ := List.forall_mem_cons.mp delimit
    rw [List.foldl_cons]
    rcases read.step_cases first with flushes | ⟨_, _, stays⟩
    · rw [flushes, read.flush, foldl_delimiters others]
      exact ⟨rfl, rfl⟩
    · rw [stays]
      exact ih others

end Read

theorem foldl_parts (p : Part) (rest : List Part) (trail : List Char) (ts : List Token)
    (sep : Separator) (delimits : ∀ c ∈ trail, isDelimiter c = true)
    (apart : (p :: rest).IsChain fun _ q => q.gap ≠ [])
    (settled : (p :: rest).IsChain fun p q =>
      p.item.isHollow = true → ∃ c ∈ q.gap, isDivider c = true) :
    ∃ tokens, List.Forall₂ Item.Is ((p :: rest).map (·.item)) tokens ∧
      let s := (p.item.text ++ ((rest.flatMap fun q => q.gap ++ q.item.text) ++ trail)).foldl step
        (waiting ts none sep)
      s.inQuotes = false ∧ s.flush.tokens = ts ++ tokens := by
  induction rest generalizing p ts sep with
  | nil =>
    obtain ⟨t, is, read⟩ := foldl_item p.item ts sep
    refine ⟨[t], .cons is .nil, ?_⟩
    rw [List.flatMap_nil, List.nil_append, List.foldl_append]
    exact read.foldl_trail delimits
  | cons q rest ih =>
    obtain ⟨t, is, read⟩ := foldl_item p.item ts sep
    obtain ⟨gap, apart⟩ := List.isChain_cons_cons.mp apart
    obtain ⟨divided, settled⟩ := List.isChain_cons_cons.mp settled
    obtain ⟨tokens, others, outside, flushed⟩ := ih q (ts ++ [t])
      (p.item.text.foldl step (waiting ts none sep)).separator apart settled
    refine ⟨t :: tokens, .cons is others, ?_⟩
    rw [List.flatMap_cons, List.append_assoc, List.append_assoc, List.foldl_append,
      List.foldl_append, read.foldl_gap q.delimits gap divided]
    refine ⟨outside, flushed.trans ?_⟩
    rw [List.append_assoc, List.singleton_append]

end Scan

theorem Series.tokenize?_eq {x : Series} (settled : x.Settled) :
    ∃ tokens, tokenize? x.text = some tokens ∧ List.Forall₂ Item.Is x.items tokens := by
  have read : ∃ tokens, List.Forall₂ Item.Is x.items tokens ∧
      let s := x.chars.foldl Scan.step Scan.start
      s.inQuotes = false ∧ s.flush.tokens = tokens := by
    obtain ⟨parts, trail, delimits, apart⟩ := x
    cases parts with
    | nil =>
      have nothing : trail.foldl Scan.step Scan.start = Scan.start :=
        Scan.foldl_delimiters delimits
      rw [chars, List.flatMap_nil, List.nil_append, nothing]
      exact ⟨[], .nil, rfl, rfl⟩
    | cons p rest =>
      have lead : p.gap.foldl Scan.step Scan.start = Scan.start := Scan.foldl_delimiters p.delimits
      rw [chars, List.flatMap_cons, List.append_assoc, List.append_assoc, List.foldl_append, lead]
      exact Scan.foldl_parts p rest trail [] .equals delimits apart settled
  obtain ⟨tokens, are, outside, flushed⟩ := read
  refine ⟨tokens, ?_, are⟩
  rw [tokenize?, text, String.toList_ofList]
  exact (if_neg (Bool.eq_false_iff.mp outside)).trans (congrArg some flushed)

end Cuescript.Options
