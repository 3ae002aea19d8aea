import Cuescript.Directive.Error

/-!
The directives of a script in order, with the number of lines they were taken from. Blank lines
and lines that begin with `#` count as lines and hold no directive.
-/
namespace Cuescript

structure Listing where
  directives : List Directive
  totalLines : Nat
  deriving DecidableEq

namespace Listing

/-- A listing of given directives; the greatest line number or their count is the total. -/
def ofDirectives (ds : List Directive) : Listing :=
  ⟨ds, max ((ds.map Directive.line).foldl max 0) ds.length⟩

def isSkipped (line : String) : Bool :=
  match Text.trim line.toList with
  | [] => true
  | c :: _ => c == '#'

/-- The directive of one line, by the first form that accepts it; `none` for a skipped line. -/
def readLine (forms : List LineForm) (line : String) (index : Nat) :
    Except CompileCause (Option Directive) :=
  if isSkipped line then .ok none
  else
    let line := Text.trimmed line
    match forms.find? (·.accepts line) with
    | none => .error (.noMatchingForm line)
    | some form => ((form.read line index).mapError .line).map some

def readFrom (forms : List LineForm) (total index : Nat) :
    List String → Except CompileError (List Directive)
  | [] => .ok []
  | line :: rest =>
    match readLine forms line index with
    | .error cause => .error ⟨cause, index, total⟩
    | .ok d =>
      match readFrom forms total (index + 1) rest with
      | .error e => .error e
      | .ok ds => .ok (d.toList ++ ds)

def read (forms : List LineForm) (lines : List String) : Except CompileError Listing :=
  (readFrom forms lines.length 1 lines).map fun ds => ⟨ds, lines.length⟩

end Listing

end Cuescript
