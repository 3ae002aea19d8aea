import Cuescript.Text.Numeral
import Cuescript.Yaml.Scalar

/-!
The tokens of a YAML text. Indentation is turned into tokens that open and close collections. A
key shows itself only by the colon behind it, so the place of each scalar that may turn out to be
a key is remembered, and the tokens for the key are put in there afterwards.
-/
namespace Cuescript.Yaml

def bytesOf (s : String) : List UInt8 := s.toUTF8.data.toList

inductive Style where
  | plain
  | literal
  | other
  deriving DecidableEq

/-- The name of a kind of value, in bytes: it need not be a text in UTF-8. -/
abbrev Tag := List UInt8

inductive Token where
  | version
  | tagDirective (handle : String) (lead : Tag)
  | documentStart
  | documentEnd
  | sequenceStart
  | mappingStart
  | blockEnd
  | flowSequenceStart
  | flowSequenceEnd
  | flowMappingStart
  | flowMappingEnd
  | blockEntry
  | flowEntry
  | key
  | value
  | reference (name : String)
  | anchor (name : String)
  | tag (handle : String) (suffix : Tag)
  | scalar (style : Style) (text : String)
  deriving DecidableEq

/-- A scalar or collection that turns out to be a key if a colon follows on its line. A required
one has to. -/
structure PossibleKey where
  required : Bool
  token : Nat
  offset : Nat
  line : Nat
  column : Nat

/-- The state between two tokens. There is one possible key for each level of flow brackets, the
innermost first, and one for the block around them. -/
structure Scanner where
  cursor : Cursor
  tokens : List Token
  indent : Int
  indents : List Int
  keyAllowed : Bool
  keys : List (Option PossibleKey)

namespace Scanner

def start (text : List Char) : Scanner := ⟨.start text, [], -1, [], true, [none]⟩

def inFlow (s : Scanner) : Bool := s.keys.length > 1

def push (s : Scanner) (t : Token) : Scanner := { s with tokens := s.tokens ++ [t] }

def possibleKey (s : Scanner) : Option PossibleKey := s.keys.head?.join

def setKey (s : Scanner) (k : Option PossibleKey) : Scanner := { s with keys := k :: s.keys.tail }

def dropKey (s : Scanner) : Option Scanner :=
  if s.possibleKey.any (·.required) then none else some (s.setKey none)

/-- A possible key has to be followed by its colon on the same line and within 1024 bytes. -/
def dropStaleKeys (s : Scanner) : Option Scanner :=
  let stale (k : PossibleKey) : Bool :=
    k.line < s.cursor.line || k.offset + 1024 < s.cursor.offset
  if s.keys.any fun k => k.any fun k => stale k && k.required then none
  else some { s with keys := s.keys.map fun k => k.filter fun k => !stale k }

def saveKey (s : Scanner) : Option Scanner :=
  if s.keyAllowed then do
    let required := !s.inFlow && s.indent == (s.cursor.column : Int)
    let s ← s.dropKey
    some (s.setKey (some
      ⟨required, s.tokens.length, s.cursor.offset, s.cursor.line, s.cursor.column⟩))
  else some s

def roll (s : Scanner) (column at_ : Nat) (t : Token) : Scanner :=
  if s.inFlow || (column : Int) ≤ s.indent then s
  else
    { s with
      indents := s.indent :: s.indents, indent := column, tokens := s.tokens.insertIdx at_ t }

def unrollFrom (column : Int) : Nat → Scanner → Scanner
  | 0, s => s
  | fuel + 1, s =>
    if s.indent > column then
      unrollFrom column fuel
        { s.push .blockEnd with indent := s.indents.head?.getD (-1), indents := s.indents.tail }
    else s

def unroll (s : Scanner) (column : Int) : Scanner :=
  if s.inFlow then s else unrollFrom column (s.indents.length + 1) s

/-- Passes over blanks, comments and line breaks up to the next token. A line may begin with a byte
order mark, which takes up its first column. -/
def skipToToken : Nat → Scanner → Scanner
  | 0, s => s
  | fuel + 1, s =>
    let tabs := s.inFlow || !s.keyAllowed
    let c := s.cursor
    let c := if c.column = 0 && c.next isByteOrderMark then c.skip 1 else c
    let c := c.skipWhile fun d => d == ' ' || (tabs && d == '\t')
    let c := if c.next (· == '#') then c.skipWhile (! isBreak ·) else c
    if c.next isBreak then
      skipToToken fuel
        { s with cursor := c.skipBreak, keyAllowed := if s.inFlow then s.keyAllowed else true }
    else { s with cursor := c }

def indicator (s : Scanner) (n : Nat) (t : Token) : Scanner :=
  { s.push t with cursor := s.cursor.skip n }

def openFlow (s : Scanner) (t : Token) : Option Scanner := do
  let s ← s.saveKey
  some ({ s with keys := none :: s.keys, keyAllowed := true }.indicator 1 t)

def closeFlow (s : Scanner) (t : Token) : Option Scanner := do
  let s ← s.dropKey
  let s := if s.inFlow then { s with keys := s.keys.tail } else s
  some ({ s with keyAllowed := false }.indicator 1 t)

def flowEntry (s : Scanner) : Option Scanner := do
  let s ← s.dropKey
  some ({ s with keyAllowed := true }.indicator 1 .flowEntry)

def blockEntry (s : Scanner) : Option Scanner := do
  if !s.inFlow && !s.keyAllowed then none
  else
    let s := s.roll s.cursor.column s.tokens.length .sequenceStart
    let s ← s.dropKey
    some ({ s with keyAllowed := true }.indicator 1 .blockEntry)

def keyIndicator (s : Scanner) : Option Scanner := do
  if !s.inFlow && !s.keyAllowed then none
  else
    let s := s.roll s.cursor.column s.tokens.length .mappingStart
    let s ← s.dropKey
    some ({ s with keyAllowed := !s.inFlow }.indicator 1 .key)

def valueIndicator (s : Scanner) : Option Scanner :=
  match s.possibleKey with
  | some k =>
    let s := { s with tokens := s.tokens.insertIdx k.token .key }
    let s := (s.roll k.column k.token .mappingStart).setKey none
    some ({ s with keyAllowed := false }.indicator 1 .value)
  | none =>
    if !s.inFlow && !s.keyAllowed then none
    else
      let s := s.roll s.cursor.column s.tokens.length .mappingStart
      some ({ s with keyAllowed := !s.inFlow }.indicator 1 .value)

def marker (s : Scanner) (t : Token) : Option Scanner := do
  let s ← (s.unroll (-1)).dropKey
  some ({ s with keyAllowed := false }.indicator 3 t)

def finish (s : Scanner) : Option Scanner := do
  let s ← (s.unroll (-1)).dropKey
  some { s with keyAllowed := false }

def named (s : Scanner) (t : String → Token) : Option Scanner := do
  let s ← s.saveKey
  let c := s.cursor.skip 1
  let name := c.rest.takeWhile isWordChar
  let after := c.skip name.length
  let ends := after.delimitedAt 0 ||
    after.next fun d => "?:,]\x7d%@".toList.contains d || d.toNat == 96
  if name.isEmpty || !ends then none
  else some { s.push (t (String.ofList name)) with cursor := after, keyAllowed := false }

def isTagChar (full : Bool) (c : Char) : Bool :=
  isWordChar c || ";/?:@&=+$.!~*()".toList.contains c || c.toNat == 39
    || (full && ",[]".toList.contains c)

def escapedByte? (c : Cursor) : Option UInt8 :=
  match c.rest with
  | '%' :: a :: b :: _ => do some ((← hexValue? a) * 16 + (← hexValue? b)).toUInt8
  | _ => none

def groupSize? (first : UInt8) : Option Nat :=
  if first < 0x80 then some 1
  else if first < 0xC0 then none
  else if first < 0xE0 then some 2
  else if first < 0xF0 then some 3
  else if first < 0xF8 then some 4
  else none

def escapedRest : Nat → Cursor → Option (Tag × Cursor)
  | 0, c => some ([], c)
  | n + 1, c => do
    let b ← escapedByte? c
    if 0x80 ≤ b && b < 0xC0 then
      (escapedRest n (c.skip 3)).map fun (bs, c) => (b :: bs, c)
    else none

/-- Reads the characters of a tag, the last one read first in `got`. Bytes may be escaped; those of
one character have to be escaped together. -/
def tagText (full : Bool) : Nat → Tag → Cursor → Option (Tag × Cursor)
  | 0, _, _ => none
  | fuel + 1, got, c =>
    match c.rest with
    | '%' :: _ => do
      let b ← escapedByte? c
      let (bs, c) ← escapedRest ((← groupSize? b) - 1) (c.skip 3)
      tagText full fuel (bs.reverse ++ b :: got) c
    | d :: _ => if isTagChar full d then tagText full fuel (d.toNat.toUInt8 :: got) (c.skip 1)
                else some (got.reverse, c)
    | [] => some (got.reverse, c)

def untilZero (t : Tag) : Tag := t.takeWhile (· != 0)

def tagHandle (c : Cursor) : List Char × Cursor :=
  let name := (c.rest.drop 1).takeWhile isWordChar
  let after := c.skip (1 + name.length)
  if after.next (· == '!') then ('!' :: name ++ ['!'], after.skip 1) else ('!' :: name, after)

def readTag (c : Cursor) : Option (String × Tag × Cursor) := do
  let fuel := c.rest.length + 1
  if c.ahead 1 (· == '<') then
    let (text, after) ← tagText true fuel [] (c.skip 2)
    if text.isEmpty || !after.next (· == '>') then none
    else some ("", untilZero text, after.skip 1)
  else
    let (handle, after) := tagHandle c
    if handle.length > 1 && handle.getLast? == some '!' then
      let (text, after) ← tagText false fuel [] after
      if text.isEmpty then none else some (String.ofList handle, untilZero text, after)
    else
      let name := handle.tail.map fun d => d.toNat.toUInt8
      let (text, after) ← tagText false fuel name.reverse after
      let text := untilZero text
      some (if text.isEmpty then ("", bytesOf "!", after) else ("!", text, after))

def tag (s : Scanner) : Option Scanner := do
  let s ← s.saveKey
  let (handle, text, c) ← readTag s.cursor
  if c.delimitedAt 0 || (s.inFlow && c.next (· == ',')) then
    some { s.push (.tag handle text) with cursor := c, keyAllowed := false }
  else none

def block (s : Scanner) (literal : Bool) : Option Scanner := do
  let s ← s.dropKey
  let (text, c) ← readBlock literal s.indent (s.cursor.skip 1)
  let style := if literal then Style.literal else .other
  some { s.push (.scalar style (String.ofList text)) with cursor := c, keyAllowed := true }

def quoted (s : Scanner) (double : Bool) : Option Scanner := do
  let s ← s.saveKey
  let c := s.cursor.skip 1
  let (text, c) ← readQuoted double (c.rest.length + 1) [] c
  some { s.push (.scalar .other (String.ofList text)) with cursor := c, keyAllowed := false }

def plain (s : Scanner) : Option Scanner := do
  let s ← s.saveKey
  let (text, broken, c) ←
    readPlain s.inFlow (s.indent + 1) (s.cursor.rest.length + 1) [] .none s.cursor
  some { s.push (.scalar .plain (String.ofList text)) with cursor := c, keyAllowed := broken }

def versionNumber (c : Cursor) : Option (Nat × Cursor) :=
  let ds := c.rest.takeWhile Char.isDigit
  if ds.isEmpty || ds.length > 9 then none
  else some (Text.digitsValue 0 ds, c.skip ds.length)

def versionDirective (c : Cursor) : Option (Token × Cursor) := do
  let (major, c) ← versionNumber (c.skipWhile isBlank)
  if !c.next (· == '.') then none
  else
    let (minor, c) ← versionNumber (c.skip 1)
    if major = 1 && (minor = 1 || minor = 2) then some (.version, c) else none

def tagMeaning (c : Cursor) : Option (Token × Cursor) := do
  let c := c.skipWhile isBlank
  if !c.next (· == '!') then none
  else
    let (handle, after) := tagHandle c
    if handle.length > 1 && handle.getLast? != some '!' then none
    else if !after.next isBlank then none
    else
      let c := after.skipWhile isBlank
      let (text, after) ← tagText true (c.rest.length + 1) [] c
      if text.isEmpty || !after.delimitedAt 0 then none
      else some (.tagDirective (String.ofList handle) (untilZero text), after)

def directive (s : Scanner) : Option Scanner := do
  let s ← (s.unroll (-1)).dropKey
  let c := s.cursor.skip 1
  let name := c.rest.takeWhile isWordChar
  let c := c.skip name.length
  if !c.delimitedAt 0 then none
  else
    let (t, c) ←
      if name == "YAML".toList then versionDirective c
      else if name == "TAG".toList then tagMeaning c
      else none
    let c := c.skipWhile isBlank
    let c := if c.next (· == '#') then c.skipWhile (! isBreak ·) else c
    if c.atEnd || c.next isBreak then
      some { s.push t with cursor := c.skipBreak, keyAllowed := false }
    else none

def isIndicator (c : Char) : Bool :=
  "-?:,[]\x7b\x7d#&*!|>\"%@".toList.contains c || c.toNat == 39 || c.toNat == 96

def fetch (s : Scanner) (d : Char) : Option Scanner :=
  let c := s.cursor
  let ends := c.delimitedAt 1
  if c.column = 0 && d == '%' then s.directive
  else if c.atMarker then s.marker (if d == '-' then .documentStart else .documentEnd)
  else if d == '[' then s.openFlow .flowSequenceStart
  else if d == '\x7b' then s.openFlow .flowMappingStart
  else if d == ']' then s.closeFlow .flowSequenceEnd
  else if d == '\x7d' then s.closeFlow .flowMappingEnd
  else if d == ',' then s.flowEntry
  else if d == '-' && ends then s.blockEntry
  else if d == '?' && (s.inFlow || ends) then s.keyIndicator
  else if d == ':' && (s.inFlow || ends) then s.valueIndicator
  else if d == '*' then s.named .reference
  else if d == '&' then s.named .anchor
  else if d == '!' then s.tag
  else if d == '|' && !s.inFlow then s.block true
  else if d == '>' && !s.inFlow then s.block false
  else if d.toNat == 39 then s.quoted false
  else if d == '"' then s.quoted true
  else if !isBlankOrBreak d && !isIndicator d then s.plain
  else if d == '-' && !c.ahead 1 isBlank then s.plain
  else if !s.inFlow && (d == '?' || d == ':') && !ends then s.plain
  else none

def run : Nat → Scanner → Option (List Token)
  | 0, _ => none
  | fuel + 1, s => do
    let s := skipToToken (s.cursor.rest.length + 1) s
    let s ← s.dropStaleKeys
    match s.cursor.peek with
    | none => (← s.finish).tokens
    | some d => run fuel (← (s.unroll s.cursor.column).fetch d)

end Scanner

def tokenize? (text : String) : Option (List Token) :=
  let cs := text.toList
  if cs.all isAllowed then Scanner.run (cs.length + 1) (.start cs) else none

end Cuescript.Yaml
