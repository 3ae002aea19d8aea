/-!
A place in a YAML text: what is still to be read, and how far the reading has come. Indentation is
measured in characters from the start of the line, a byte order mark being one of them; distances
within the text are measured in bytes of UTF-8.
-/
namespace Cuescript.Yaml

structure Cursor where
  rest : List Char
  offset : Nat
  line : Nat
  column : Nat

def byteCount (cs : List Char) : Nat := cs.foldl (fun n c => n + c.utf8Size) 0

def isByteOrderMark (c : Char) : Bool := c.toNat == 0xFEFF

def isBlank (c : Char) : Bool := c == ' ' || c == '\t'

def isBreak (c : Char) : Bool :=
  c == '\n' || c == '\r' || c.toNat == 0x85 || c.toNat == 0x2028 || c.toNat == 0x2029

def isBlankOrBreak (c : Char) : Bool := isBlank c || isBreak c

def isWordChar (c : Char) : Bool := c.isAlphanum || c == '_' || c == '-'

def isAllowed (c : Char) : Bool :=
  let n := c.toNat
  n == 9 || n == 10 || n == 13 || (0x20 ≤ n && n ≤ 0x7E) || n == 0x85 || (0xA0 ≤ n && n ≤ 0xD7FF)
    || (0xE000 ≤ n && n ≤ 0xFFFD) || 0x10000 ≤ n

namespace Cursor

def start (text : List Char) : Cursor := ⟨text, 0, 0, 0⟩

def atEnd (c : Cursor) : Bool := c.rest.isEmpty

def peek (c : Cursor) : Option Char := c.rest.head?

def next (c : Cursor) (p : Char → Bool) : Bool := c.rest.head?.any p

def ahead (c : Cursor) (n : Nat) (p : Char → Bool) : Bool := (c.rest.drop n).head?.any p

def delimitedAt (c : Cursor) (n : Nat) : Bool := (c.rest.drop n).head?.all isBlankOrBreak

def skip (c : Cursor) (n : Nat) : Cursor :=
  ⟨c.rest.drop n, c.offset + byteCount (c.rest.take n), c.line, c.column + n⟩

def skipWhile (c : Cursor) (p : Char → Bool) : Cursor := c.skip (c.rest.takeWhile p).length

def skipBreak (c : Cursor) : Cursor :=
  match c.rest with
  | '\r' :: '\n' :: rest => ⟨rest, c.offset + 2, c.line + 1, 0⟩
  | d :: rest => ⟨rest, c.offset + d.utf8Size, c.line + 1, 0⟩
  | [] => c

def breakText (c : Cursor) : List Char :=
  match c.rest with
  | d :: _ => if d.toNat == 0x2028 || d.toNat == 0x2029 then [d] else ['\n']
  | [] => []

def atMarker (c : Cursor) : Bool :=
  c.column == 0 && (c.rest.take 3 == ['-', '-', '-'] || c.rest.take 3 == ['.', '.', '.'])
    && c.delimitedAt 3

end Cursor

end Cuescript.Yaml
