import Cuescript.Directive.Line
import Cuescript.Options.Error

/-!
Why a script cannot be compiled: the cause, the number of the line and the number of lines.
-/
namespace Cuescript

inductive CompileCause where
  | noMatchingForm (text : String)
  | line (error : LineError)
  | unknownIdentifier (kind : Kind) (identifier : String)
  | bind (error : Options.BindError)
  deriving DecidableEq

def CompileCause.message : CompileCause → String
  | .noMatchingForm text => "Unable to find matching parser for \"" ++ text ++ "\""
  | .line error => error.message
  | .unknownIdentifier kind identifier =>
    "No " ++ kind.name ++ " with identifier \"" ++ identifier ++ "\" found"
  | .bind error => error.message

def CompileCause.name : CompileCause → String
  | .noMatchingForm _ => "NoMatchingParser"
  | .line error => error.cause
  | .unknownIdentifier .. => "UnknownIdentifier"
  | .bind error => error.cause

structure CompileError where
  cause : CompileCause
  line : Nat
  total : Nat
  deriving DecidableEq

def CompileError.message (e : CompileError) : String :=
  e.cause.message ++ " on line " ++ toString e.line ++ "/" ++ toString e.total

end Cuescript
