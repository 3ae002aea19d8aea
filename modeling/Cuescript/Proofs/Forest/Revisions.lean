import Cuescript.Proofs.Forest.Faults
import Cuescript.Proofs.Forest.Relabelling
import Cuescript.Proofs.Text.Runs

/-!
Scripts revised in what does not count: idle lines are put in, and blanks come or go at the ends of
lines. Main statement: the revised script compiles to the same forest, but for the ids, or fails for
the same cause at the same line, wherever that line stands now.
-/
namespace Cuescript

def Idle (line : String) : Prop :=
  ∃ blanks rest : List Char, line.toList = blanks ++ rest ∧
    (∀ c ∈ blanks, Text.isBlank c = true) ∧ ∀ c ∈ rest.head?, c = '#'

def Alike (line line' : String) : Prop :=
  ∃ text front back front' back' : List Char,
    line.toList = front ++ (text ++ back) ∧ line'.toList = front' ++ (text ++ back') ∧
      ∀ c ∈ front ++ back ++ front' ++ back', Text.isBlank c = true

/-- One line of a revised script: put in, or a line of the original as it reads now. -/
inductive Revision where
  | inserted (line : String) (idle : Idle line)
  | kept (line line' : String) (alike : Alike line line')

namespace Revision

def before? : Revision → Option String
  | inserted .. => none
  | kept line .. => some line

def after : Revision → String
  | inserted line _ => line
  | kept _ line' _ => line'

def original (rs : List Revision) : List String := rs.filterMap before?

def revised (rs : List Revision) : List String := rs.map after

def place : List Revision → Nat → Nat
  | [], k => k
  | inserted .. :: rest, k => place rest k + 1
  | kept .. :: _, 0 => 0
  | kept .. :: rest, k + 1 => place rest k + 1

variable {rs : List Revision}

theorem getElem?_place {k : Nat} {line : String} (here : (original rs)[k]? = some line) :
    ∃ line' alike, rs[place rs k]? = some (kept line line' alike) := by
  induction rs generalizing k with
  | nil => simp [original] at here
  | cons revision rest ih =>
    cases revision with
    | inserted => exact ih here
    | kept first first' alike =>
      cases k with
      | zero =>
        cases here
        exact ⟨first', alike, rfl⟩
      | succ k => exact ih here

end Revision

namespace Listing

variable {forms : List LineForm} {line line' : String}

theorem isSkipped_of_idle (idle : Idle line) : isSkipped line = true := by
  obtain ⟨blanks, rest, is, blank, remark⟩ := idle
  have trimmed : Text.trim line.toList = Text.trim rest := by
    have apart := @Text.trim_blanks rest blanks [] blank nofun
    rwa [List.append_nil, ← is] at apart
  have head : (Text.trim rest).head? = rest.head? := by
    rw [Text.head?_trim]
    cases rest with
    | nil => rfl
    | cons c rest =>
      cases remark c rfl
      rw [Text.trimFront, List.dropWhile_cons_of_neg (by decide)]
  rw [isSkipped, trimmed]
  cases first : Text.trim rest with
  | nil => rfl
  | cons c cs =>
    rw [first] at head
    exact beq_iff_eq.mpr (remark c head.symm)

theorem trim_of_alike (alike : Alike line line') :
    Text.trim line'.toList = Text.trim line.toList := by
  obtain ⟨text, front, back, front', back', is, is', blank⟩ := alike
  simp only [List.mem_append] at blank
  rw [is, is', Text.trim_blanks (fun c h => blank c (by simp [h])) fun c h => blank c (by simp [h]),
    Text.trim_blanks (fun c h => blank c (by simp [h])) fun c h => blank c (by simp [h])]

theorem readLine_of_alike (forms : List LineForm) (alike : Alike line line') (index index' : Nat) :
    readLine forms line' index' =
      (readLine forms line index).map (Option.map fun d => { d with line := index' }) := by
  have skipped : isSkipped line' = isSkipped line := by
    rw [isSkipped, isSkipped, trim_of_alike alike]
  have trimmed : Text.trimmed line' = Text.trimmed line :=
    congrArg String.ofList (trim_of_alike alike)
  rw [← readLine_at, readLine, readLine, skipped, trimmed]

theorem readLine_of_idle (idle : Idle line) (index : Nat) :
    readLine forms line index = .ok none :=
  if_pos (isSkipped_of_idle idle)

end Listing

open Revision

def CompileError.moved (m : Nat → Nat) (total : Nat) (e : CompileError) : CompileError :=
  ⟨e.cause, m e.line, total⟩

def Directive.moved (m : Nat → Nat) (d : Directive) : Directive := { d with line := m d.line }

section Stages

variable {m : Nat → Nat}

/-- The lines of a revised script read: the directives of the original on other lines. Line
`index + k` of the original is line `m (index + k)` now. -/
theorem readFrom_revised (forms : List LineForm) (total total' : Nat) {rs : List Revision}
    {index index' : Nat} (moves : ∀ k, m (index + k) = index' + place rs k) :
    Listing.readFrom forms total' index' (revised rs) =
      ((Listing.readFrom forms total index (original rs)).mapError (·.moved m total')).map
        (·.map (·.moved m)) := by
  induction rs generalizing index index' with
  | nil => rfl
  | cons revision rest ih =>
    cases revision with
    | inserted line idle =>
      have later := @ih index (index' + 1) fun k => by rw [moves, place]; omega
      rw [revised, List.map_cons, after, Listing.readFrom_cons (Listing.readLine_of_idle idle _),
        ← revised, later, show original (inserted line idle :: rest) = original rest from rfl]
      cases Listing.readFrom forms total index (original rest) <;> rfl
    | kept line line' alike =>
      have later := @ih (index + 1) (index' + 1) fun k => by
        rw [show index + 1 + k = index + (k + 1) by omega, moves, place]
        omega
      have there := Listing.readLine_of_alike forms alike index index'
      rw [revised, List.map_cons, after, ← revised,
        show original (kept line line' alike :: rest) = line :: original rest from rfl]
      have now : m index = index' := moves 0
      cases is : Listing.readLine forms line index with
      | error cause =>
        rw [is] at there
        rw [Listing.readFrom, Listing.readFrom, is, there, ← now]
        rfl
      | ok d =>
        rw [is] at there
        rw [Listing.readFrom_cons is, Listing.readFrom_cons there, later]
        cases d with
        | none => cases Listing.readFrom forms total (index + 1) (original rest) <;> rfl
        | some e =>
          have moved : { e with line := index' } = e.moved m := by
            rw [Directive.moved, Listing.line_of_readLine is, now]
          rw [Option.map_some, moved]
          cases Listing.readFrom forms total (index + 1) (original rest) <;> rfl

theorem resolveAll_moved (r : Registry) (total total' : Nat) {σ : NodeId → NodeId}
    {first other : Nat} (ds : List Directive) (shifts : ∀ k, σ ⟨first + k⟩ = ⟨other + k⟩) :
    r.resolveAll total' other (ds.map (·.moved m)) =
      ((r.resolveAll total first ds).mapError (·.moved m total')).map (·.map (·.relabel σ)) := by
  induction ds generalizing first other with
  | nil => rfl
  | cons d ds ih =>
    have later := @ih (first + 1) (other + 1) fun k => by
      rw [Nat.add_right_comm, Nat.add_assoc, shifts, Nat.add_right_comm, Nat.add_assoc]
    have made : (d.moved m).resolve r ⟨other⟩ = (d.resolve r ⟨first⟩).map (·.relabel σ) := by
      rw [← Directive.resolve_relabel, show σ ⟨first⟩ = ⟨other⟩ from shifts 0]
      rfl
    rw [List.map_cons, Registry.resolveAll, Registry.resolveAll, made]
    cases d.resolve r ⟨first⟩ with
    | error cause => rfl
    | ok item =>
      dsimp only [Except.map]
      rw [later]
      cases r.resolveAll total (first + 1) ds <;> rfl

end Stages

theorem FirstFault.at_line {r : Registry} {forms : List LineForm} {lines : List String}
    {e : CompileError} (fault : FirstFault r forms lines e) :
    ∃ k line, lines[k]? = some line ∧ e = ⟨e.cause, k + 1, lines.length⟩ := by
  have reported : ∃ fails, Reported fails lines.length 1 lines e :=
    fault.elim (fun unread => ⟨_, unread⟩) fun unresolved => ⟨_, unresolved.2⟩
  obtain ⟨_, k, cause, first, rfl⟩ := reported
  obtain ⟨line, here, _⟩ := first.here
  exact ⟨k, line, here, by rw [Nat.add_comm]⟩

theorem Registry.compileLines_eq (r : Registry) (forms : List LineForm) (lines : List String)
    (first : Nat) :
    r.compileLines forms lines first = match Listing.readFrom forms lines.length 1 lines with
      | .error e => .error e
      | .ok ds => (r.resolveAll lines.length first ds).map Forest.ofItems := by
  rw [compileLines, Listing.read]
  cases Listing.readFrom forms lines.length 1 lines <;> rfl

/-- The second result is the first one but for positions: node ids are counted from `other` instead
of `first`, and lines as in the revised script. -/
structure Revised (rs : List Revision) (first other : Nat)
    (result result' : Except CompileError Forest) : Prop where
  compiles : ∀ f, result = .ok f →
    result' = .ok (f.relabel fun id => ⟨other + (id.number - first)⟩)
  fails : ∀ e, result = .error e → ∃ k line line' alike,
    (original rs)[k]? = some line ∧ rs[place rs k]? = some (kept line line' alike) ∧
      e = ⟨e.cause, k + 1, (original rs).length⟩ ∧
      result' = .error ⟨e.cause, place rs k + 1, (revised rs).length⟩

/-- Neither idle lines nor blanks at the ends of lines make a difference to a script but for where
things stand. -/
theorem Registry.compileLines_revised (r : Registry) (forms : List LineForm) (rs : List Revision)
    (first other : Nat) :
    Revised rs first other (r.compileLines forms (original rs) first)
      (r.compileLines forms (revised rs) other) := by
  let m := fun n => 1 + place rs (n - 1)
  let σ : NodeId → NodeId := fun id => ⟨other + (id.number - first)⟩
  have moves : ∀ k, m (1 + k) = 1 + place rs k := fun k => by
    simp only [m, Nat.add_sub_cancel_left]
  have shifts : ∀ k, σ ⟨first + k⟩ = ⟨other + k⟩ := fun k => by
    simp only [σ, Nat.add_sub_cancel_left]
  have whole : r.compileLines forms (revised rs) other =
      ((r.compileLines forms (original rs) first).mapError (·.moved m (revised rs).length)).map
        (·.relabel σ) := by
    rw [compileLines_eq, compileLines_eq, readFrom_revised forms (original rs).length _ moves]
    cases Listing.readFrom forms (original rs).length 1 (original rs) with
    | error e => rfl
    | ok ds =>
      dsimp only [Except.map, Except.mapError]
      rw [resolveAll_moved r (original rs).length _ ds shifts]
      cases r.resolveAll (original rs).length first ds with
      | error e => rfl
      | ok items => exact congrArg Except.ok (Forest.ofItems_relabel items)
  constructor
  · intro f is
    rw [whole, is]
    rfl
  · intro e is
    obtain ⟨k, line, here, at_k⟩ := (compileLines_error_iff.mp is).at_line
    obtain ⟨line', alike, there⟩ := getElem?_place here
    have now : m e.line = place rs k + 1 := by rw [at_k, Nat.add_comm k, moves, Nat.add_comm]
    refine ⟨k, line, line', alike, here, there, at_k, ?_⟩
    rw [whole, is, ← now]
    rfl

end Cuescript
