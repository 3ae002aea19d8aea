import Cuescript.Proofs.Directive.Lines

/-!
Directives written out and read again. A directive is written with parentheses around its node
options, whatever brackets they were read from. Main statement: what is read from the line so
written is the same directive exactly if no `)` is among the node options.
-/
namespace Cuescript

open Text (Stops)

def writtenNode (options : List Char) : List Char :=
  if options.isEmpty then [] else '(' :: (options ++ [')'])

def writtenOptions (options : List Char) : List Char :=
  if options.isEmpty then [] else ' ' :: options

theorem isEmpty_toList (s : String) : s.toList.isEmpty = s.isEmpty := by
  rw [Bool.eq_iff_iff, List.isEmpty_iff, String.isEmpty_iff, String.toList_eq_nil_iff]

namespace Directive

theorem toList_text (d : Directive) : d.text.toList = d.kind.mark :: (d.identifier.toList ++
    (writtenNode d.nodeOptions.toList ++ writtenOptions d.options.toList)) := by
  have node : (if d.nodeOptions.isEmpty then "" else "(" ++ d.nodeOptions ++ ")").toList =
      writtenNode d.nodeOptions.toList := by
    rw [writtenNode, isEmpty_toList]
    split <;> simp
  have options : (if d.options.isEmpty then "" else " " ++ d.options).toList =
      writtenOptions d.options.toList := by
    rw [writtenOptions, isEmpty_toList]
    split <;> simp
  rw [text, String.toList_append, String.toList_append, String.toList_append, node, options]
  simp [Char.toString]

end Directive

def NodePart.rounded (inner : List Char) (free : ')' ∉ inner) : NodePart :=
  if inner.isEmpty then .absent else .within .round inner free

namespace NodePart

variable {inner : List Char} {free : ')' ∉ inner}

theorem inner_rounded : (rounded inner free).inner = inner := by
  unfold rounded
  split
  · rename_i none
    exact (List.isEmpty_iff.mp none).symm
  · rfl

theorem text_rounded : (rounded inner free).text = writtenNode inner := by
  unfold rounded writtenNode
  split <;> rfl

end NodePart

theorem stops_writtenNode (options : List Char) :
    Stops Text.isBlank (writtenNode options).reverse := by
  unfold writtenNode
  split
  · exact Text.stops_nil _
  · rw [List.reverse_cons, List.reverse_append]
    exact Text.stops_cons.mpr (by decide)

theorem stops_writtenOptions {options : List Char} (stops : Stops Text.isBlank options.reverse) :
    Stops Text.isBlank (writtenOptions options).reverse := by
  unfold writtenOptions
  split
  · exact Text.stops_nil _
  · rename_i some
    rw [List.reverse_cons]
    exact stops.append_of_ne_nil (by simpa using some)

theorem trim_writtenOptions {options : List Char} (trimmed : Text.trim options = options) :
    Text.trim (writtenOptions options) = options := by
  unfold writtenOptions
  split
  · rename_i none
    rw [List.isEmpty_iff.mp none]
    rfl
  · have apart := @Text.trim_blanks options [' '] []
      (List.forall_mem_singleton.mpr rfl) nofun
    rw [List.append_nil, List.singleton_append] at apart
    rw [apart, trimmed]

namespace LineBody

/-- The line of the directive that was read from `p`, if parentheses can hold its node options. -/
def rewritten (p : LineBody) (free : ')' ∉ Text.trim p.node.inner) : LineBody where
  identifier := p.identifier
  named := p.named
  letters := p.letters
  node := .rounded (Text.trim p.node.inner) free
  rest := writtenOptions (Text.trim p.rest)
  apart := by
    unfold writtenOptions
    split
    · nofun
    · rintro _ ⟨⟩
      decide

variable {p : LineBody} {kind : Kind} {index : Nat} {free : ')' ∉ Text.trim p.node.inner}

theorem directive_rewritten :
    (p.rewritten free).directive kind index = p.directive kind index := by
  simp only [directive, rewritten, NodePart.inner_rounded, Text.trim_trim,
    trim_writtenOptions (Text.trim_trim _)]

theorem toList_text_directive (p : LineBody) (kind : Kind) (index : Nat) :
    (p.directive kind index).text.toList = kind.mark :: (p.identifier ++
      (writtenNode (Text.trim p.node.inner) ++ writtenOptions (Text.trim p.rest))) := by
  rw [Directive.toList_text]
  simp [directive]

/-- The written line begins with a mark and ends with what ends a trimmed text, with a parenthesis
or with the identifier, so there is nothing to trim. -/
theorem trim_text_directive (p : LineBody) (kind : Kind) (index : Nat) :
    Text.trim (p.directive kind index).text.toList = (p.directive kind index).text.toList := by
  have mark : Text.isBlank kind.mark = false := by cases kind <;> decide
  have letters : Stops Text.isBlank p.identifier.reverse := by
    intro c last
    have letter := p.letters c (List.mem_reverse.mp (List.mem_of_mem_head? last))
    refine Bool.eq_false_iff.mpr fun blank => ?_
    rw [isIdentifierChar_of_isBlank blank] at letter
    cases letter
  rw [toList_text_directive]
  refine Text.trim_of_stops (Text.stops_cons.mpr mark) ?_
  simp only [List.reverse_cons, List.reverse_append, List.append_assoc]
  exact (stops_writtenOptions (Text.stops_reverse_trim _)).append
    ((stops_writtenNode _).append (letters.append (Text.stops_cons.mpr mark)))

end LineBody

namespace LineForm

variable {form : LineForm} {line : String} {index : Nat} {d : Directive}

theorem read_ok_iff : form.read line index = .ok d ↔
    ∃ p : LineBody, Text.trim line.toList = form.mark :: p.text ∧
      d = p.directive form.kind index := by
  rw [read_iff_judges, Judges.formed_iff]

/-- A directive that was read is written so that it can be read again exactly if no `)` is among its
node options. -/
theorem read_text_iff {kind : Kind} (read : (standard kind).read line index = .ok d) :
    (standard kind).read d.text index = .ok d ↔ ')' ∉ d.nodeOptions.toList := by
  obtain ⟨p, _, rfl⟩ := read_ok_iff.mp read
  rw [read_ok_iff, LineBody.trim_text_directive, LineBody.toList_text_directive]
  constructor
  · rintro ⟨q, written, same⟩ closes
    have identifier : p.identifier = q.identifier :=
      String.ofList_injective (congrArg Directive.identifier same)
    have behind : writtenNode (Text.trim p.node.inner) ++ writtenOptions (Text.trim p.rest) =
        q.node.text ++ q.rest := by
      have body := (List.cons.inj written).2
      rwa [LineBody.text, identifier, List.append_cancel_left_eq] at body
    have options : Text.trim p.node.inner = Text.trim q.node.inner :=
      String.ofList_injective (congrArg Directive.nodeOptions same)
    have closes : ')' ∈ Text.trim p.node.inner := by simpa [LineBody.directive] using closes
    have opened : ∃ more, q.node.text ++ q.rest = '(' :: more := by
      rw [← behind, writtenNode, if_neg (by simpa using List.ne_nil_of_mem closes)]
      exact ⟨_, rfl⟩
    rw [options] at closes
    have closes := Text.mem_of_mem_trim closes
    cases node : q.node with
    | absent =>
      rw [node] at closes
      cases closes
    | within b inner free =>
      obtain ⟨more, opened⟩ := opened
      rw [node] at closes opened
      cases b with
      | round => exact free closes
      | square => simp [NodePart.text, Bracket.opening] at opened
  · intro free
    have free : ')' ∉ Text.trim p.node.inner := by simpa [LineBody.directive] using free
    refine ⟨p.rewritten free, ?_, LineBody.directive_rewritten.symm⟩
    rw [LineBody.text, LineBody.rewritten, NodePart.text_rounded]
    rfl

theorem read_text_iff_bracketed :
    let d : Directive := ⟨.action, "heal", "cooldown=5s (each)", "amount=4", 3⟩
    (standard .action).read " !heal[cooldown=5s (each) ] amount=4" 3 = .ok d ∧
      ((standard .action).read d.text 3 = .ok d ↔ ')' ∉ d.nodeOptions.toList) := by
  intro d
  have read : (standard .action).read " !heal[cooldown=5s (each) ] amount=4" 3 = .ok d := rfl
  exact ⟨read, read_text_iff read⟩

end LineForm

end Cuescript
