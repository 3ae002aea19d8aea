import Cuescript.Text.Blank

/-!
Option text cut into tokens. A token is a value, or a key and a value with `=` or `:` between.
Commas, semicolons and blanks delimit; double quotes keep them inside a value. Blanks around the
separator are allowed, so a bare value that is followed by a separator turns into a key.
-/
namespace Cuescript.Options

inductive Separator where
  | equals
  | colon
  deriving DecidableEq

def Separator.char : Separator → Char
  | .equals => '='
  | .colon => ':'

def Separator.ofChar? : Char → Option Separator
  | '=' => some .equals
  | ':' => some .colon
  | _ => none

structure Token where
  key : Option String
  separator : Separator
  value : String
  deriving DecidableEq

/-- The state between two characters: the tokens so far, the key that waits for its value, the
separator seen last, the characters of the value so far, whether a part of it was quoted, and
whether a quote is open. -/
structure Scan where
  tokens : List Token
  key : Option (List Char)
  separator : Separator
  buffer : List Char
  quoted : Bool
  inQuotes : Bool

namespace Scan

def start : Scan := ⟨[], none, .equals, [], false, false⟩

def push (s : Scan) (c : Char) : Scan := { s with buffer := s.buffer ++ [c] }

/-- Ends the value, if one has begun. An empty pair of quotes is a value, and so is nothing after
a key. -/
def flush (s : Scan) : Scan :=
  if s.buffer.isEmpty && s.key.isNone && !s.quoted then s
  else
    { s with
      tokens := s.tokens ++ [⟨s.key.map String.ofList, s.separator, String.ofList s.buffer⟩]
      key := none, buffer := [], quoted := false }

/-- A separator where a key may stand before it: the value just read becomes the key, or else the
last token if it is a bare value. With neither, it is a character like any other. -/
def separate (s : Scan) (sep : Separator) : Scan :=
  if s.buffer.isEmpty then
    match s.tokens.getLast? with
    | some ⟨none, _, value⟩ =>
      { s with tokens := s.tokens.dropLast, key := some value.toList, separator := sep }
    | _ => { s.push sep.char with separator := sep }
  else { s with key := some s.buffer, buffer := [], separator := sep }

/-- A blank ends the value, but not while a key still waits for one. -/
def blank (s : Scan) : Scan :=
  if s.key.isSome && s.buffer.isEmpty && !s.quoted then s else s.flush

def step (s : Scan) (c : Char) : Scan :=
  if c = '"' then { s with inQuotes := !s.inQuotes, quoted := true }
  else if s.inQuotes then s.push c
  else if c = ',' || c = ';' then s.flush
  else if Text.isBlank c then s.blank
  else
    match Separator.ofChar? c with
    | some sep => if s.key.isNone && !s.quoted then s.separate sep else s.push c
    | none => s.push c

end Scan

def tokenize? (text : String) : Option (List Token) :=
  let s := text.toList.foldl Scan.step Scan.start
  if s.inQuotes then none else some s.flush.tokens

end Cuescript.Options
