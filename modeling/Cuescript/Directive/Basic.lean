/-!
Directives: what one line of a script says. A directive names a component of one of three kinds
and carries two texts of options, one for the node it becomes and one for the component.
-/
namespace Cuescript

/-- What a line asks for: something to do, a condition, or an occasion. -/
inductive Kind where
  | action
  | requirement
  | trigger
  deriving DecidableEq, Inhabited

namespace Kind

def all : List Kind := [.action, .requirement, .trigger]

def name : Kind → String
  | .action => "action"
  | .requirement => "requirement"
  | .trigger => "trigger"

def mark : Kind → Char
  | .action => '!'
  | .requirement => '?'
  | .trigger => '@'

def ofName? (s : String) : Option Kind := all.find? fun k => k.name == s

end Kind

/-- A script line taken apart. `line` is its number, counted from one. -/
structure Directive where
  kind : Kind
  identifier : String
  nodeOptions : String
  options : String
  line : Nat
  deriving DecidableEq, Inhabited

/-- The directive as a line: the node options in parentheses, the other options after a blank. -/
def Directive.text (d : Directive) : String :=
  d.kind.mark.toString ++ d.identifier
    ++ (if d.nodeOptions.isEmpty then "" else "(" ++ d.nodeOptions ++ ")")
    ++ (if d.options.isEmpty then "" else " " ++ d.options)

end Cuescript
