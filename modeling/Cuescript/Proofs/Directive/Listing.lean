import Cuescript.Directive.Listing

/-!
The directives of a listing are those of its lines, in the order of the lines. Each line that is
not skipped gives one directive, which carries the number of the line.
-/
namespace Cuescript

namespace LineForm

variable {form : LineForm} {line : String} {index : Nat} {d : Directive}

theorem line_of_readBody {body : List Char} (read : form.readBody line index body = .ok d) :
    d.line = index := by
  rw [readBody] at read
  split at read
  · cases read
  · split at read
    · cases read
    · split at read
      · cases read
        rfl
      · cases read

theorem line_of_read (read : form.read line index = .ok d) : d.line = index := by
  rw [LineForm.read] at read
  split at read
  · split at read
    · exact line_of_readBody read
    · cases read
  · cases read

end LineForm

namespace Listing

variable {forms : List LineForm}

theorem line_of_readLine {line : String} {index : Nat} {d : Directive}
    (read : readLine forms line index = .ok (some d)) : d.line = index := by
  rw [readLine] at read
  split at read
  · cases read
  · dsimp only at read
    split at read
    · cases read
    · rename_i form _
      cases is : form.read (Text.trimmed line) index with
      | error e =>
        rw [is] at read
        cases read
      | ok e =>
        rw [is] at read
        cases read
        exact LineForm.line_of_read is

/-- `ds` are the directives of lines, the first of which has the number `index`. -/
structure Listed (forms : List LineForm) (index : Nat) (lines : List String)
    (ds : List Directive) : Prop where
  ascending : ds.Pairwise fun d e => d.line < e.line
  mem : ∀ d, d ∈ ds ↔
    ∃ k line, lines[k]? = some line ∧ readLine forms line (index + k) = .ok (some d)

theorem Listed.line_ge {index : Nat} {lines : List String} {ds : List Directive}
    (h : Listed forms index lines ds) {d : Directive} (hd : d ∈ ds) : index ≤ d.line := by
  obtain ⟨k, line, _, read⟩ := (h.mem d).mp hd
  exact line_of_readLine read ▸ Nat.le_add_right index k

theorem Listed.cons {index : Nat} {line : String} {lines : List String} {first : Option Directive}
    {ds : List Directive} (read : readLine forms line index = .ok first)
    (rest : Listed forms (index + 1) lines ds) :
    Listed forms index (line :: lines) (first.toList ++ ds) := by
  constructor
  · cases first with
    | none => exact rest.ascending
    | some d =>
      refine List.pairwise_cons.mpr ⟨fun e he => ?_, rest.ascending⟩
      exact line_of_readLine read ▸ rest.line_ge he
  · intro d
    rw [List.mem_append, Option.mem_toList, rest.mem]
    constructor
    · rintro (rfl | ⟨k, text, here, read'⟩)
      · exact ⟨0, line, rfl, read⟩
      · exact ⟨k + 1, text, here, Nat.add_right_comm index 1 k ▸ read'⟩
    · rintro ⟨_ | k, text, here, read'⟩
      · obtain rfl := Option.some.inj here
        exact .inl (Except.ok.inj (read.symm.trans read'))
      · exact .inr ⟨k, text, here, Nat.add_right_comm index 1 k ▸ read'⟩

theorem readFrom_listed {total : Nat} {lines : List String} {ds : List Directive} {index : Nat}
    (read : readFrom forms total index lines = .ok ds) : Listed forms index lines ds := by
  induction lines generalizing index ds with
  | nil =>
    cases read
    exact ⟨.nil, by simp⟩
  | cons line rest ih =>
    rw [readFrom] at read
    split at read
    · cases read
    · rename_i first is
      split at read
      · cases read
      · rename_i tail is'
        cases read
        exact .cons is (ih is')

theorem read_listed {lines : List String} {listing : Listing}
    (ok : read forms lines = .ok listing) : Listed forms 1 lines listing.directives := by
  cases is : readFrom forms lines.length 1 lines with
  | error e =>
    rw [read, is] at ok
    cases ok
  | ok ds =>
    rw [read, is] at ok
    cases ok
    exact readFrom_listed is

end Listing

end Cuescript
