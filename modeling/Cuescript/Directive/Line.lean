import Cuescript.Directive.Basic
import Cuescript.Text.Alphanumeric
import Cuescript.Text.Blank

/-!
One script line read as a directive. A line is a mark, an identifier, node options in brackets or
parentheses if any, and after a blank the options of the component.
-/
namespace Cuescript

/-- Lines that begin with `mark` are directives of `kind`. -/
structure LineForm where
  kind : Kind
  mark : Char
  deriving DecidableEq

inductive LineError where
  | notAccepted (line : String) (mark : Char)
  | missingIdentifier (line : String)
  | unclosedNodeOptions (line : String)
  | trailingInput (line rest : String)
  deriving DecidableEq

namespace LineError

def message : LineError → String
  | .notAccepted line mark => "\"" ++ line ++ "\" does not start with '" ++ mark.toString ++ "'"
  | .missingIdentifier line => "Missing identifier in \"" ++ line ++ "\""
  | .unclosedNodeOptions line => "Unclosed node options in \"" ++ line ++ "\""
  | .trailingInput line rest =>
    "Unexpected \"" ++ rest ++ "\" after identifier in \"" ++ line ++ "\""

def cause : LineError → String
  | .notAccepted .. => "NotAccepted"
  | .missingIdentifier .. => "MissingIdentifier"
  | .unclosedNodeOptions .. => "UnclosedNodeOptions"
  | .trailingInput .. => "TrailingInput"

end LineError

def isIdentifierChar (c : Char) : Bool :=
  Text.isAlphanumeric c || c == '_' || c == '-' || c == '.' || c == ':'

def closingOf? : Char → Option Char
  | '[' => some ']'
  | '(' => some ')'
  | _ => none

/-- Node options taken off what follows the identifier: their text without the brackets and the
rest. Without a bracket there are none; `none` says that a bracket is not closed. -/
def takeNodeOptions : List Char → Option (List Char × List Char)
  | [] => some ([], [])
  | c :: rest =>
    match closingOf? c with
    | none => some ([], c :: rest)
    | some closing =>
      match rest.dropWhile (· != closing) with
      | [] => none
      | _ :: after => some (rest.takeWhile (· != closing), after)

namespace LineForm

def standard (kind : Kind) : LineForm := ⟨kind, kind.mark⟩

def standards : List LineForm := Kind.all.map standard

def accepts (form : LineForm) (line : String) : Bool :=
  (Text.trimFront line.toList).head? == some form.mark

def readBody (form : LineForm) (line : String) (index : Nat) (body : List Char) :
    Except LineError Directive :=
  let identifier := body.takeWhile isIdentifierChar
  if identifier.isEmpty then .error (.missingIdentifier line)
  else
    match takeNodeOptions (body.dropWhile isIdentifierChar) with
    | none => .error (.unclosedNodeOptions line)
    | some (nodeOptions, rest) =>
      if rest.head?.all Text.isBlank then
        .ok
          { kind := form.kind
            identifier := String.ofList identifier
            nodeOptions := String.ofList (Text.trim nodeOptions)
            options := String.ofList (Text.trim rest)
            line := index }
      else .error (.trailingInput line (String.ofList rest))

def read (form : LineForm) (line : String) (index : Nat) : Except LineError Directive :=
  let cs := Text.trim line.toList
  match cs with
  | c :: body =>
    if c = form.mark then form.readBody (String.ofList cs) index body
    else .error (.notAccepted (String.ofList cs) form.mark)
  | [] => .error (.notAccepted (String.ofList cs) form.mark)

end LineForm

end Cuescript
