import Cuescript.Yaml.Cursor

/-!
Scalars of a YAML text: plain ones, quoted ones and blocks. Lines inside a scalar are folded: one
line break is a blank, of several the first is dropped. Each reader gives the value and the place
after it, or nothing if the scalar breaks a rule.
-/
namespace Cuescript.Yaml

structure Gap where
  blanks : List Char
  first : Option (List Char)
  others : List Char

namespace Gap

def none : Gap := ⟨[], .none, []⟩

def folded (g : Gap) : List Char :=
  match g.first with
  | .none => g.blanks
  | some ['\n'] => if g.others.isEmpty then [' '] else g.others
  | some first => first ++ g.others

/-- Reads a gap. With `indent` a tab must not stand where that indentation is still missing. -/
def read (indent : Option Int) : Nat → Gap → Cursor → Option (Gap × Cursor)
  | 0, g, c => some (g, c)
  | fuel + 1, g, c =>
    if c.next isBlank then
      if g.first.isSome then
        if c.next (· == '\t') && indent.any fun i => (c.column : Int) < i then .none
        else read indent fuel g (c.skip 1)
      else read indent fuel { g with blanks := g.blanks ++ c.rest.take 1 } (c.skip 1)
    else if c.next isBreak then
      if g.first.isSome then
        read indent fuel { g with others := g.others ++ c.breakText } c.skipBreak
      else read indent fuel { g with blanks := [], first := some c.breakText } c.skipBreak
    else some (g, c)

end Gap

def isFlowIndicator (c : Char) : Bool :=
  c == ',' || c == '[' || c == ']' || c == '\x7b' || c == '\x7d'

def plainWord (inFlow : Bool) : Nat → List Char → Cursor → Option (List Char × Cursor)
  | 0, got, c => some (got.reverse, c)
  | fuel + 1, got, c =>
    match c.rest with
    | [] => some (got.reverse, c)
    | d :: _ =>
      if isBlankOrBreak d then some (got.reverse, c)
      else if inFlow && d == ':' && c.ahead 1 fun e => isFlowIndicator e || e == '?' then none
      else if d == ':' && c.delimitedAt 1 then some (got.reverse, c)
      else if inFlow && isFlowIndicator d then some (got.reverse, c)
      else plainWord inFlow fuel (d :: got) (c.skip 1)

/-- Reads a plain scalar: its value, the place after it, and whether it ended behind a line
break. -/
def readPlain (inFlow : Bool) (indent : Int) :
    Nat → List Char → Gap → Cursor → Option (List Char × Bool × Cursor)
  | 0, _, _, _ => none
  | fuel + 1, got, gap, c =>
    if c.atMarker || c.next (· == '#') then some (got, gap.first.isSome, c)
    else do
      let (word, c) ← plainWord inFlow (c.rest.length + 1) [] c
      let (got, gap) := if word.isEmpty then (got, gap) else (got ++ gap.folded ++ word, Gap.none)
      if !c.next isBlankOrBreak then some (got, gap.first.isSome, c)
      else
        let (gap, c) ← Gap.read (some indent) (c.rest.length + 1) gap c
        if !inFlow && (c.column : Int) < indent then some (got, gap.first.isSome, c)
        else readPlain inFlow indent fuel got gap c

def hexValue? (c : Char) : Option Nat :=
  if c.isDigit then some (c.toNat - 48)
  else if 'a' ≤ c && c ≤ 'f' then some (c.toNat - 87)
  else if 'A' ≤ c && c ≤ 'F' then some (c.toNat - 55)
  else none

def hexChar? (cs : List Char) : Option Char := do
  let n ← cs.foldlM (fun n c => (hexValue? c).map (n * 16 + ·)) 0
  if (0xD800 ≤ n && n ≤ 0xDFFF) || n > 0x10FFFF then none else some (Char.ofNat n)

def escapeOf : Char → Option (Char ⊕ Nat)
  | '0' => some (.inl (Char.ofNat 0))
  | 'a' => some (.inl (Char.ofNat 7))
  | 'b' => some (.inl (Char.ofNat 8))
  | 't' => some (.inl '\t')
  | '\t' => some (.inl '\t')
  | 'n' => some (.inl '\n')
  | 'v' => some (.inl (Char.ofNat 11))
  | 'f' => some (.inl (Char.ofNat 12))
  | 'r' => some (.inl '\r')
  | 'e' => some (.inl (Char.ofNat 27))
  | ' ' => some (.inl ' ')
  | '"' => some (.inl '"')
  | '/' => some (.inl '/')
  | '\\' => some (.inl '\\')
  | 'N' => some (.inl (Char.ofNat 0x85))
  | '_' => some (.inl (Char.ofNat 0xA0))
  | 'L' => some (.inl (Char.ofNat 0x2028))
  | 'P' => some (.inl (Char.ofNat 0x2029))
  | 'x' => some (.inr 2)
  | 'u' => some (.inr 4)
  | 'U' => some (.inr 8)
  | _ => none

/-- The part of a quoted scalar up to the next blank or to the closing quote. The flag says that
it ended with an escaped line break. -/
def quotedWord (double : Bool) : Nat → List Char → Cursor → Option (List Char × Bool × Cursor)
  | 0, _, _ => none
  | fuel + 1, got, c =>
    match c.rest with
    | [] => some (got.reverse, false, c)
    | d :: more =>
      if isBlankOrBreak d then some (got.reverse, false, c)
      else if !double && d.toNat == 39 then
        if more.head? == some d then quotedWord double fuel (d :: got) (c.skip 2)
        else some (got.reverse, false, c)
      else if double && d == '"' then some (got.reverse, false, c)
      else if double && d == '\\' then
        if c.ahead 1 isBreak then some (got.reverse, true, (c.skip 1).skipBreak)
        else do
          match ← escapeOf (← more.head?) with
          | .inl e => quotedWord double fuel (e :: got) (c.skip 2)
          | .inr n =>
            let digits := (c.rest.drop 2).take n
            if digits.length < n then none
            else quotedWord double fuel ((← hexChar? digits) :: got) (c.skip (2 + n))
      else quotedWord double fuel (d :: got) (c.skip 1)

def readQuoted (double : Bool) : Nat → List Char → Cursor → Option (List Char × Cursor)
  | 0, _, _ => none
  | fuel + 1, got, c =>
    if c.atMarker || c.atEnd then none
    else do
      let (word, escaped, c) ← quotedWord double (c.rest.length + 1) [] c
      let got := got ++ word
      if c.next fun d => if double then d == '"' else d.toNat == 39 then some (got, c.skip 1)
      else
        let gap : Gap := if escaped then ⟨[], some [], []⟩ else Gap.none
        let (gap, c) ← Gap.read none (c.rest.length + 1) gap c
        readQuoted double fuel (got ++ gap.folded) c

/-- Passes over the indentation of the lines of a block and over its empty lines: the breaks, the
deepest indentation seen, and the place after. An indentation of zero is still to be found out. -/
def blockBreaks (indent : Nat) : Nat → List Char → Nat → Cursor →
    Option (List Char × Nat × Cursor)
  | 0, _, _, _ => none
  | fuel + 1, got, deepest, c =>
    let spaces := (c.rest.takeWhile (· == ' ')).length
    let c := c.skip (if indent = 0 then spaces else min spaces (indent - c.column))
    let deepest := max deepest c.column
    if (indent = 0 || c.column < indent) && c.next (· == '\t') then none
    else if c.next isBreak then
      blockBreaks indent fuel (got ++ c.breakText) deepest c.skipBreak
    else some (got, deepest, c)

inductive Chomping where
  | strip
  | clip
  | keep
  deriving DecidableEq

/-- The lines of a block of known indentation. `lead` is the break before the line to be read,
`breaks` are the empty lines after it. -/
def blockLines (literal : Bool) (chomping : Chomping) (indent : Nat) :
    Nat → List Char → List Char → List Char → Bool → Cursor → Option (List Char × Cursor)
  | 0, _, _, _, _, _ => none
  | fuel + 1, got, lead, breaks, afterBlank, c =>
    if c.column = indent && !c.atEnd then do
      let blank := c.next isBlank
      let joined :=
        if !literal && lead == ['\n'] && !afterBlank && !blank then
          if breaks.isEmpty then [' '] else breaks
        else lead ++ breaks
      let line := c.rest.takeWhile (! isBreak ·)
      let c := c.skip line.length
      let lead := c.breakText
      let c := if c.atEnd then c else c.skipBreak
      let (breaks, _, c) ← blockBreaks indent (c.rest.length + 1) [] 0 c
      blockLines literal chomping indent fuel (got ++ joined ++ line) lead breaks blank c
    else
      some (got ++ (if chomping = .strip then [] else lead)
        ++ (if chomping = .keep then breaks else []), c)

def blockHeader (c : Cursor) : Option (Chomping × Nat × Cursor) :=
  let chomp (c : Cursor) : Chomping × Cursor :=
    match c.peek with
    | some '+' => (.keep, c.skip 1)
    | some '-' => (.strip, c.skip 1)
    | _ => (.clip, c)
  let digit (c : Cursor) : Option (Nat × Cursor) :=
    match c.peek with
    | some d =>
      if d == '0' then none
      else if d.isDigit then some (d.toNat - 48, c.skip 1)
      else some (0, c)
    | none => some (0, c)
  if c.next (·.isDigit) then do
    let (n, c) ← digit c
    let (chomping, c) := chomp c
    some (chomping, n, c)
  else
    let (chomping, after) := chomp c
    if chomping = .clip then some (.clip, 0, c)
    else (digit after).map fun (n, c) => (chomping, n, c)

/-- Reads a block after its indicator. `outer` is the indentation of what it stands in. -/
def readBlock (literal : Bool) (outer : Int) (c : Cursor) : Option (List Char × Cursor) := do
  let (chomping, increment, c) ← blockHeader c
  let c := c.skipWhile isBlank
  let c := if c.next (· == '#') then c.skipWhile (! isBreak ·) else c
  if !(c.atEnd || c.next isBreak) then none
  else
    let c := c.skipBreak
    let given : Nat := if increment = 0 then 0 else ((max outer 0) + increment).toNat
    let (breaks, deepest, c) ← blockBreaks given (c.rest.length + 1) [] 0 c
    let indent := if given = 0 then max (max deepest (outer + 1).toNat) 1 else given
    blockLines literal chomping indent (c.rest.length + 1) [] [] breaks false c

end Cuescript.Yaml
