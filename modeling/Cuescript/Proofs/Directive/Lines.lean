import Cuescript.Directive.Line
import Cuescript.Proofs.Text.Runs

/-!
The form of a script line. Behind its mark a line has an identifier, then node options in brackets
if any, then a rest that is empty or set off by a blank. Main statement: a line is read exactly if
it has this form, and then in one way only; any other line is refused for the first part that is
not as it should be.
-/
namespace Cuescript

open Text (Stops)

inductive Bracket where
  | square
  | round
  deriving DecidableEq

def Bracket.opening : Bracket → Char
  | square => '['
  | round => '('

def Bracket.closing : Bracket → Char
  | square => ']'
  | round => ')'

/-- Node options as they are written. The first closing bracket ends them. -/
inductive NodePart where
  | absent
  | within (b : Bracket) (inner : List Char) (free : b.closing ∉ inner)

structure LineBody where
  identifier : List Char
  named : identifier ≠ []
  letters : ∀ c ∈ identifier, isIdentifierChar c = true
  node : NodePart
  rest : List Char
  apart : ∀ c ∈ rest.head?, Text.isBlank c = true

namespace NodePart

def inner : NodePart → List Char
  | absent => []
  | within _ inner _ => inner

def text : NodePart → List Char
  | absent => []
  | within b inner _ => b.opening :: (inner ++ [b.closing])

/-- Where there are no node options, none begin in what follows. -/
def Ends : NodePart → List Char → Prop
  | absent, rest => Stops (fun c => (closingOf? c).isSome) rest
  | within .., _ => True

end NodePart

namespace LineBody

def text (p : LineBody) : List Char := p.identifier ++ (p.node.text ++ p.rest)

def directive (p : LineBody) (kind : Kind) (index : Nat) : Directive where
  kind := kind
  identifier := String.ofList p.identifier
  nodeOptions := String.ofList (Text.trim p.node.inner)
  options := String.ofList (Text.trim p.rest)
  line := index

end LineBody

section Characters

theorem closingOf?_opening (b : Bracket) : closingOf? b.opening = some b.closing := by
  cases b <;> rfl

theorem closingOf?_eq_some {c d : Char} (is : closingOf? c = some d) :
    ∃ b : Bracket, c = b.opening ∧ d = b.closing := by
  unfold closingOf? at is
  split at is
  · exact ⟨.square, rfl, (Option.some.inj is).symm⟩
  · exact ⟨.round, rfl, (Option.some.inj is).symm⟩
  · cases is

theorem isIdentifierChar_opening (b : Bracket) : isIdentifierChar b.opening = false := by
  cases b <;> decide +kernel

theorem isIdentifierChar_of_isBlank {c : Char} (blank : Text.isBlank c = true) :
    isIdentifierChar c = false :=
  Text.blank_forall (P := fun c => isIdentifierChar c = false) (by decide +kernel) blank

theorem closingOf?_of_isBlank {c : Char} (blank : Text.isBlank c = true) :
    closingOf? c = none :=
  Text.blank_forall (P := fun c => closingOf? c = none) (by decide +kernel) blank

end Characters

section NodeOptions

theorem Bracket.eq_of_opening {b b' : Bracket} (same : b.opening = b'.opening) : b = b' := by
  cases b <;> cases b' <;> simp [opening] at same ⊢

theorem NodePart.eq_of_text {node node' : NodePart} (same : node.text = node'.text) :
    node = node' := by
  cases node with
  | absent =>
    cases node' with
    | absent => rfl
    | within => simp [text] at same
  | within b inner =>
    cases node' with
    | absent => simp [text] at same
    | within b' inner' =>
      obtain ⟨opening, behind⟩ := List.cons.inj same
      cases Bracket.eq_of_opening opening
      cases List.append_cancel_right behind
      rfl

variable {cs inner rest : List Char}

theorem takeNodeOptions_node {node : NodePart} (ends : node.Ends rest) :
    takeNodeOptions (node.text ++ rest) = some (node.inner, rest) := by
  cases node with
  | absent =>
    cases rest with
    | nil => rfl
    | cons c rest =>
      have none : closingOf? c = none := by simpa using Text.stops_cons.mp ends
      simp [NodePart.text, NodePart.inner, takeNodeOptions, none]
  | within b inner free =>
    have inside : ∀ c ∈ inner, (c != b.closing) = true := fun c member =>
      bne_iff_ne.mpr fun same => free (same ▸ member)
    have stops : Stops (· != b.closing) (b.closing :: rest) := by simp [Text.stops_cons]
    simp [NodePart.text, NodePart.inner, takeNodeOptions, closingOf?_opening,
      Text.dropWhile_run inside stops, Text.takeWhile_run inside stops]

theorem takeNodeOptions_unclosed {b : Bracket} (free : b.closing ∉ inner) :
    takeNodeOptions (b.opening :: inner) = none := by
  have inside : ∀ c ∈ inner, (c != b.closing) = true := fun c member =>
    bne_iff_ne.mpr fun same => free (same ▸ member)
  have nothing := Text.dropWhile_run inside (Text.stops_nil _)
  rw [List.append_nil] at nothing
  simp [takeNodeOptions, closingOf?_opening, nothing]

theorem exists_node (cs : List Char) :
    (∃ (node : NodePart) (rest : List Char), cs = node.text ++ rest ∧ node.Ends rest) ∨
      ∃ (b : Bracket) (inner : List Char), cs = b.opening :: inner ∧ b.closing ∉ inner := by
  cases cs with
  | nil => exact .inl ⟨.absent, [], rfl, Text.stops_nil _⟩
  | cons c cs =>
    cases is : closingOf? c with
    | none => exact .inl ⟨.absent, c :: cs, rfl, by simp [NodePart.Ends, Text.stops_cons, is]⟩
    | some d =>
      obtain ⟨b, rfl, rfl⟩ := closingOf?_eq_some is
      by_cases closed : b.closing ∈ cs
      · obtain ⟨inner, rest, rfl, free⟩ := List.eq_append_cons_of_mem closed
        exact .inl ⟨.within b inner free, rest, by simp [NodePart.text], trivial⟩
      · exact .inr ⟨b, cs, rfl, closed⟩

end NodeOptions

namespace LineBody

variable {p q : LineBody}

/-- A rest that is set off by a blank adds nothing to the node options. -/
theorem ends (p : LineBody) : p.node.Ends p.rest := by
  cases is : p.node with
  | absent =>
    intro c first
    simp [closingOf?_of_isBlank (p.apart c first)]
  | within => trivial

theorem stops (p : LineBody) : Stops isIdentifierChar (p.node.text ++ p.rest) := by
  cases p.node with
  | absent => exact fun c first => isIdentifierChar_of_isBlank (p.apart c first)
  | within b inner free =>
    simp [NodePart.text, Text.stops_cons, isIdentifierChar_opening]

theorem takeWhile_text (p : LineBody) : p.text.takeWhile isIdentifierChar = p.identifier :=
  Text.takeWhile_run p.letters p.stops

theorem dropWhile_text (p : LineBody) :
    p.text.dropWhile isIdentifierChar = p.node.text ++ p.rest :=
  Text.dropWhile_run p.letters p.stops

theorem eq_of_text (same : p.text = q.text) : p = q := by
  have identifier : p.identifier = q.identifier := by
    rw [← p.takeWhile_text, ← q.takeWhile_text, same]
  have behind : p.node.text ++ p.rest = q.node.text ++ q.rest := by
    rw [← p.dropWhile_text, ← q.dropWhile_text, same]
  have taken := congrArg takeNodeOptions behind
  rw [takeNodeOptions_node p.ends, takeNodeOptions_node q.ends] at taken
  have rest : p.rest = q.rest := (Prod.mk.inj (Option.some.inj taken)).2
  have node : p.node = q.node := by
    rw [rest, List.append_cancel_right_eq] at behind
    exact NodePart.eq_of_text behind
  obtain ⟨i, _, _, n, r, _⟩ := p
  cases identifier
  cases node
  cases rest
  rfl

end LineBody

namespace LineForm

variable {form : LineForm} {index : Nat} {cs rest : List Char} {r : Except LineError Directive}

inductive Judges (form : LineForm) (index : Nat) :
    List Char → Except LineError Directive → Prop
  | foreign {cs : List Char} (other : cs.head? ≠ some form.mark) :
    Judges form index cs (.error (.notAccepted (String.ofList cs) form.mark))
  | nameless {body : List Char} (stops : Stops isIdentifierChar body) :
    Judges form index (form.mark :: body)
      (.error (.missingIdentifier (String.ofList (form.mark :: body))))
  | unclosed {identifier inner : List Char} {b : Bracket} (named : identifier ≠ [])
    (letters : ∀ c ∈ identifier, isIdentifierChar c = true) (free : b.closing ∉ inner) :
    Judges form index (form.mark :: (identifier ++ b.opening :: inner))
      (.error (.unclosedNodeOptions
        (String.ofList (form.mark :: (identifier ++ b.opening :: inner)))))
  | overrun {identifier rest : List Char} {node : NodePart} (named : identifier ≠ [])
    (letters : ∀ c ∈ identifier, isIdentifierChar c = true) (ends : node.Ends rest)
    (stops : Stops isIdentifierChar (node.text ++ rest)) (other : rest ≠ [])
    (joined : Stops Text.isBlank rest) :
    Judges form index (form.mark :: (identifier ++ (node.text ++ rest)))
      (.error (.trailingInput
        (String.ofList (form.mark :: (identifier ++ (node.text ++ rest)))) (String.ofList rest)))
  | formed (p : LineBody) :
    Judges form index (form.mark :: p.text) (.ok (p.directive form.kind index))

theorem readBody_run {identifier behind : List Char} (line : String) (named : identifier ≠ [])
    (letters : ∀ c ∈ identifier, isIdentifierChar c = true)
    (stops : Stops isIdentifierChar behind) :
    form.readBody line index (identifier ++ behind) =
      match takeNodeOptions behind with
      | none => .error (.unclosedNodeOptions line)
      | some (nodeOptions, rest) =>
        if rest.head?.all Text.isBlank then
          .ok ⟨form.kind, String.ofList identifier, String.ofList (Text.trim nodeOptions),
            String.ofList (Text.trim rest), index⟩
        else .error (.trailingInput line (String.ofList rest)) := by
  have some : ¬ identifier.isEmpty = true := by simp [named]
  unfold readBody
  rw [Text.takeWhile_run letters stops, Text.dropWhile_run letters stops]
  exact if_neg some

theorem Judges.read (judges : form.Judges index cs r) {line : String}
    (trimmed : Text.trim line.toList = cs) : form.read line index = r := by
  unfold LineForm.read
  dsimp only
  rw [trimmed]
  cases judges with
  | foreign other =>
    cases cs with
    | nil => rfl
    | cons c body =>
      have unlike : c ≠ form.mark := by simpa using other
      simp [unlike]
  | nameless stops => simp [readBody, stops.takeWhile]
  | @unclosed identifier inner b named letters free =>
    have stops : Stops isIdentifierChar (b.opening :: inner) := by
      simp [Text.stops_cons, isIdentifierChar_opening]
    simp [readBody_run _ named letters stops, takeNodeOptions_unclosed free]
  | @overrun identifier rest node named letters ends stops other joined =>
    have unlike : rest.head?.all Text.isBlank = false := by
      cases rest with
      | nil => exact absurd rfl other
      | cons c rest => simpa using Text.stops_cons.mp joined
    simp [readBody_run _ named letters stops, takeNodeOptions_node ends, unlike]
  | formed p =>
    have apart : p.rest.head?.all Text.isBlank = true := by
      cases is : p.rest.head? with
      | none => rfl
      | some c => exact p.apart c is
    simp [LineBody.text, readBody_run _ p.named p.letters p.stops, takeNodeOptions_node p.ends,
      apart, LineBody.directive]

theorem exists_judges (form : LineForm) (index : Nat) (cs : List Char) :
    ∃ r, form.Judges index cs r := by
  by_cases mark : cs.head? = some form.mark
  · obtain ⟨body, rfl⟩ := List.head?_eq_some_iff.mp mark
    obtain ⟨identifier, behind, rfl, letters, stops⟩ := Text.exists_run isIdentifierChar body
    by_cases named : identifier = []
    · subst named
      exact ⟨_, .nameless stops⟩
    rcases exists_node behind with ⟨node, rest, rfl, ends⟩ | ⟨b, inner, rfl, free⟩
    · by_cases apart : ∀ c ∈ rest.head?, Text.isBlank c = true
      · exact ⟨_, .formed ⟨identifier, named, letters, node, rest, apart⟩⟩
      · obtain ⟨c, rest, rfl⟩ : ∃ c rest', rest = c :: rest' := by
          cases rest with
          | nil => simp at apart
          | cons c rest => exact ⟨c, rest, rfl⟩
        have joined : Text.isBlank c = false := by simpa using apart
        exact ⟨_, .overrun named letters ends stops nofun (Text.stops_cons.mpr joined)⟩
    · exact ⟨_, .unclosed named letters free⟩
  · exact ⟨_, .foreign mark⟩

theorem read_iff_judges {line : String} :
    form.read line index = r ↔ form.Judges index (Text.trim line.toList) r := by
  constructor
  · rintro rfl
    obtain ⟨r, judges⟩ := exists_judges form index (Text.trim line.toList)
    rw [judges.read rfl]
    exact judges
  · exact fun judges => judges.read rfl

/-- What reading a line gives, told from the trimmed line `cs` alone. -/
structure Judged (form : LineForm) (line : String) (index : Nat) (cs : List Char) : Prop where
  read : ∀ d, form.read line index = .ok d ↔
    ∃ p : LineBody, cs = form.mark :: p.text ∧ d = p.directive form.kind index
  unique : ∀ p q : LineBody, cs = form.mark :: p.text → cs = form.mark :: q.text → p = q
  /-- Each error tells the trimmed line. -/
  refused : ∀ e, form.read line index = .error e →
    e = .notAccepted (String.ofList cs) form.mark ∨ e = .missingIdentifier (String.ofList cs) ∨
      e = .unclosedNodeOptions (String.ofList cs) ∨
      ∃ rest, e = .trailingInput (String.ofList cs) rest
  foreign : form.read line index = .error (.notAccepted (String.ofList cs) form.mark) ↔
    ¬ ∃ body, cs = form.mark :: body
  accepts : form.accepts line = false ↔ ¬ ∃ body, cs = form.mark :: body
  nameless : form.read line index = .error (.missingIdentifier (String.ofList cs)) ↔
    ∃ body, cs = form.mark :: body ∧ ∀ c ∈ body.head?, isIdentifierChar c = false
  unclosed : form.read line index = .error (.unclosedNodeOptions (String.ofList cs)) ↔
    ∃ identifier inner, ∃ b : Bracket, cs = form.mark :: (identifier ++ b.opening :: inner) ∧
      identifier ≠ [] ∧ (∀ c ∈ identifier, isIdentifierChar c = true) ∧ b.closing ∉ inner
  /-- The rest that is reported is what follows the longest identifier and its node options. -/
  overrun : ∀ rest, form.read line index =
      .error (.trailingInput (String.ofList cs) (String.ofList rest)) ↔
    ∃ identifier, ∃ node : NodePart, cs = form.mark :: (identifier ++ (node.text ++ rest)) ∧
      identifier ≠ [] ∧ (∀ c ∈ identifier, isIdentifierChar c = true) ∧
      (∀ c ∈ (node.text ++ rest).head?, isIdentifierChar c = false) ∧ node.Ends rest ∧
      ∃ c ∈ rest.head?, Text.isBlank c = false

theorem accepts_iff {line : String} :
    form.accepts line = true ↔ (Text.trim line.toList).head? = some form.mark := by
  rw [accepts, Text.head?_trim, beq_iff_eq]

namespace Judges

theorem formed_iff {d : Directive} : form.Judges index cs (.ok d) ↔
    ∃ p : LineBody, cs = form.mark :: p.text ∧ d = p.directive form.kind index := by
  constructor
  · rintro ⟨⟩
    exact ⟨_, rfl, rfl⟩
  · rintro ⟨p, rfl, rfl⟩
    exact .formed p

theorem foreign_iff : form.Judges index cs (.error (.notAccepted (String.ofList cs) form.mark)) ↔
    ¬ ∃ body, cs = form.mark :: body := by
  rw [← List.head?_eq_some_iff]
  constructor
  · rintro ⟨⟩
    assumption
  · exact .foreign

theorem nameless_iff : form.Judges index cs (.error (.missingIdentifier (String.ofList cs))) ↔
    ∃ body, cs = form.mark :: body ∧ ∀ c ∈ body.head?, isIdentifierChar c = false := by
  constructor
  · rintro ⟨⟩
    exact ⟨_, rfl, ‹_›⟩
  · rintro ⟨body, rfl, stops⟩
    exact .nameless stops

theorem unclosed_iff : form.Judges index cs (.error (.unclosedNodeOptions (String.ofList cs))) ↔
    ∃ identifier inner, ∃ b : Bracket, cs = form.mark :: (identifier ++ b.opening :: inner) ∧
      identifier ≠ [] ∧ (∀ c ∈ identifier, isIdentifierChar c = true) ∧ b.closing ∉ inner := by
  constructor
  · rintro ⟨⟩
    exact ⟨_, _, _, rfl, ‹_›, ‹_›, ‹_›⟩
  · rintro ⟨identifier, inner, b, rfl, named, letters, free⟩
    exact .unclosed named letters free

theorem overrun_iff :
    form.Judges index cs (.error (.trailingInput (String.ofList cs) (String.ofList rest))) ↔
      ∃ identifier, ∃ node : NodePart, cs = form.mark :: (identifier ++ (node.text ++ rest)) ∧
        identifier ≠ [] ∧ (∀ c ∈ identifier, isIdentifierChar c = true) ∧
        (∀ c ∈ (node.text ++ rest).head?, isIdentifierChar c = false) ∧ node.Ends rest ∧
        ∃ c ∈ rest.head?, Text.isBlank c = false := by
  constructor
  · generalize reported : String.ofList rest = text
    rintro ⟨⟩
    rename_i identifier rest' node named letters ends stops other joined
    cases String.ofList_injective reported
    obtain ⟨c, tail, rfl⟩ := List.exists_cons_of_ne_nil other
    exact ⟨identifier, node, rfl, named, letters, stops, ends, c, rfl, joined c rfl⟩
  · rintro ⟨identifier, node, rfl, named, letters, stops, ends, c, first, joined⟩
    obtain ⟨tail, rfl⟩ := List.head?_eq_some_iff.mp first
    exact .overrun named letters ends stops nofun (Text.stops_cons.mpr joined)

theorem refused {e : LineError} (judges : form.Judges index cs (.error e)) :
    e = .notAccepted (String.ofList cs) form.mark ∨ e = .missingIdentifier (String.ofList cs) ∨
      e = .unclosedNodeOptions (String.ofList cs) ∨
      ∃ rest, e = .trailingInput (String.ofList cs) rest := by
  cases judges with
  | foreign => exact .inl rfl
  | nameless => exact .inr (.inl rfl)
  | unclosed => exact .inr (.inr (.inl rfl))
  | overrun => exact .inr (.inr (.inr ⟨_, rfl⟩))

end Judges

/-- A line is read exactly if it has the form of a directive, which it has in one way only; else the
first part that is not as it should be decides the error. -/
theorem read_judged (form : LineForm) (line : String) (index : Nat) :
    form.Judged line index (Text.trim line.toList) := by
  refine ⟨fun d => ?_, ?_, fun e => ?_, ?_, ?_, ?_, ?_, fun rest => ?_⟩
  · rw [read_iff_judges, Judges.formed_iff]
  · intro p q is is'
    exact LineBody.eq_of_text (List.cons.inj (is.symm.trans is')).2
  · rw [read_iff_judges]
    exact Judges.refused
  · rw [read_iff_judges, Judges.foreign_iff]
  · rw [← List.head?_eq_some_iff, ← accepts_iff, Bool.not_eq_true]
  · rw [read_iff_judges, Judges.nameless_iff]
  · rw [read_iff_judges, Judges.unclosed_iff]
  · rw [read_iff_judges, Judges.overrun_iff]

example : ((standard .action).read " !heal[cooldown=5s ] amount=4 " 3).toOption =
    some ⟨.action, "heal", "cooldown=5s", "amount=4", 3⟩ := by decide +kernel

end LineForm

end Cuescript
