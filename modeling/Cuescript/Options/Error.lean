/-!
Why option text cannot be bound to a config.
-/
namespace Cuescript.Options

inductive BindError where
  | unknownOption (key : String)
  | missingRequired (key : String)
  | invalidValue (key value reason : String)
  | unexpectedValue (value : String)
  | duplicatePosition (position : Nat) (first second : String)
  | unterminatedQuote (text : String)
  deriving DecidableEq

def BindError.message : BindError → String
  | .unknownOption key => "unknown option '" ++ key ++ "'"
  | .missingRequired key => "missing required option '" ++ key ++ "'"
  | .invalidValue key value reason =>
    "invalid value '" ++ value ++ "' for option '" ++ key ++ "': " ++ reason
  | .unexpectedValue value => "unexpected positional value '" ++ value ++ "'"
  | .duplicatePosition position first second =>
    "found same position " ++ toString position ++ " on options: " ++ first ++ "," ++ second
  | .unterminatedQuote text => "unterminated quote in options: " ++ text

def BindError.cause : BindError → String
  | .unknownOption .. => "UnknownOption"
  | .missingRequired .. => "MissingRequired"
  | .invalidValue .. => "InvalidValue"
  | .unexpectedValue .. => "UnexpectedValue"
  | .duplicatePosition .. => "DuplicatePosition"
  | .unterminatedQuote .. => "UnterminatedQuote"

end Cuescript.Options
