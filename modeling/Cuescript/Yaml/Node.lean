import Cuescript.Yaml.Token

/-!
YAML documents as trees. The tokens of a text are read as a stream of documents; handles of tags
are replaced by their meaning. What an alias stands for is kept beside the tree, because a node may
contain an alias for itself. A text with more than one document is refused.
-/
namespace Cuescript.Yaml

/-- A document or a part of one. `absent` is the document of an empty text, `reference` an alias for
the node with an anchor of that number. -/
inductive Node where
  | absent
  | scalar (tag : Option Tag) (style : Style) (text : String)
  | sequence (tag : Option Tag) (items : List Node)
  | mapping (tag : Option Tag) (entries : List (Node × Node))
  | reference (anchor : Nat)
  deriving Inhabited

mutual

/-- How many beginnings and ends a document has, its root's included; a scalar or an alias counts
once. -/
def Node.marks : Node → Nat
  | .sequence _ items => Node.marksOfItems items + 2
  | .mapping _ entries => Node.marksOfEntries entries + 2
  | _ => 1

def Node.marksOfItems : List Node → Nat
  | [] => 0
  | n :: rest => n.marks + Node.marksOfItems rest

def Node.marksOfEntries : List (Node × Node) → Nat
  | [] => 0
  | (k, v) :: rest => k.marks + v.marks + Node.marksOfEntries rest

end

structure Tree where
  root : Node
  anchored : List (Nat × Node)

structure Names where
  anchors : List (String × Nat)
  anchored : List (Nat × Node)
  handles : List (String × Tag)

abbrev Taken (α : Type) := α × Names × List Token

def Node.blank : Node := .scalar none .plain ""

def coreLead : Tag := bytesOf "tag:yaml.org,2002:"

def Names.resolve (n : Names) (handle : String) (suffix : Tag) : Option Tag :=
  if handle = "" then some suffix
  else
    match n.handles.lookup handle with
    | some meaning => some (meaning ++ suffix)
    | none =>
      if handle = "!" then some (bytesOf "!" ++ suffix)
      else if handle = "!!" then some (coreLead ++ suffix)
      else none

structure Properties where
  anchor : Option String
  tag : Option Tag

def Properties.any (p : Properties) : Bool := p.anchor.isSome || p.tag.isSome

def readProperties (n : Names) : List Token → Option (Properties × List Token)
  | .anchor a :: .tag handle suffix :: rest => do
    some (⟨some a, some (← n.resolve handle suffix)⟩, rest)
  | .tag handle suffix :: .anchor a :: rest => do
    some (⟨some a, some (← n.resolve handle suffix)⟩, rest)
  | .anchor a :: rest => some (⟨some a, none⟩, rest)
  | .tag handle suffix :: rest => do some (⟨none, some (← n.resolve handle suffix)⟩, rest)
  | ts => some (⟨none, none⟩, ts)

/-- Numbers the anchor of a node that begins here: the number is how many names have been met. A
name that comes again gets a new number, which the next new name then shares. Of the nodes with one
number the one that begins last counts. -/
def Names.announce (n : Names) (p : Properties) : Names × Option Nat :=
  match p.anchor with
  | some a =>
    let number := n.anchors.length
    ({ n with
        anchors := (a, number) :: n.anchors.filter (·.1 != a)
        anchored := n.anchored.filter (·.1 != number) }, some number)
  | none => (n, none)

/-- Keeps a node whose end has been reached, unless a node inside it has taken its number. -/
def Names.settle (n : Names) (number : Option Nat) (node : Node) : Names :=
  match number with
  | some k =>
    if (n.anchored.lookup k).isSome then n else { n with anchored := (k, node) :: n.anchored }
  | none => n

mutual

/-- Reads a node. In a block, collections by indentation are allowed; after a key, a sequence may
stand at the indentation of its key. -/
def readNode (block indentless : Bool) (fuel : Nat) (n : Names) (ts : List Token) :
    Option (Taken Node) :=
  match fuel with
  | 0 => none
  | fuel + 1 =>
    match ts with
    | .reference a :: rest => (n.anchors.lookup a).map fun k => (.reference k, n, rest)
    | _ => do
      let (p, ts) ← readProperties n ts
      let (n, number) := n.announce p
      let finish (node : Node) (n : Names) (ts : List Token) : Option (Taken Node) :=
        some (node, n.settle number node, ts)
      match ts with
      | .blockEntry :: _ =>
        if indentless then
          let (items, n, rest) ← readIndentless fuel n ts
          finish (.sequence p.tag items) n rest
        else if p.any then finish (.scalar p.tag .plain "") n ts
        else none
      | .scalar style text :: rest =>
        finish (.scalar p.tag style text) n rest
      | .flowSequenceStart :: rest =>
        let (items, n, rest) ← readFlowItems true fuel n rest
        finish (.sequence p.tag items) n rest
      | .flowMappingStart :: rest =>
        let (entries, n, rest) ← readFlowEntries true fuel n rest
        finish (.mapping p.tag entries) n rest
      | .sequenceStart :: rest =>
        if block then
          let (items, n, rest) ← readItems fuel n rest
          finish (.sequence p.tag items) n rest
        else if p.any then finish (.scalar p.tag .plain "") n ts
        else none
      | .mappingStart :: rest =>
        if block then
          let (entries, n, rest) ← readEntries fuel n rest
          finish (.mapping p.tag entries) n rest
        else if p.any then finish (.scalar p.tag .plain "") n ts
        else none
      | _ => if p.any then finish (.scalar p.tag .plain "") n ts else none

def readUnless (stop : Token → Bool) (block indentless : Bool) (fuel : Nat) (n : Names)
    (ts : List Token) : Option (Taken Node) :=
  match fuel with
  | 0 => none
  | fuel + 1 =>
    if ts.head?.any stop then some (.blank, n, ts) else readNode block indentless fuel n ts

def readItems (fuel : Nat) (n : Names) (ts : List Token) : Option (Taken (List Node)) :=
  match fuel with
  | 0 => none
  | fuel + 1 =>
    match ts with
    | .blockEntry :: rest => do
      let (item, n, rest) ←
        readUnless (fun t => t == .blockEntry || t == .blockEnd) true false fuel n rest
      let (items, n, rest) ← readItems fuel n rest
      some (item :: items, n, rest)
    | .blockEnd :: rest => some ([], n, rest)
    | _ => none

def readIndentless (fuel : Nat) (n : Names) (ts : List Token) : Option (Taken (List Node)) :=
  match fuel with
  | 0 => none
  | fuel + 1 =>
    match ts with
    | .blockEntry :: rest => do
      let (item, n, rest) ←
        readUnless (fun t => t == .blockEntry || t == .key || t == .value || t == .blockEnd)
          true false fuel n rest
      let (items, n, rest) ← readIndentless fuel n rest
      some (item :: items, n, rest)
    | _ => some ([], n, ts)

def readEntries (fuel : Nat) (n : Names) (ts : List Token) : Option (Taken (List (Node × Node))) :=
  match fuel with
  | 0 => none
  | fuel + 1 =>
    let stop (t : Token) : Bool := t == .key || t == .value || t == .blockEnd
    match ts with
    | .key :: rest => do
      let (key, n, rest) ← readUnless stop true true fuel n rest
      let (value, n, rest) ← readBlockValue fuel n rest
      let (entries, n, rest) ← readEntries fuel n rest
      some ((key, value) :: entries, n, rest)
    | .blockEnd :: rest => some ([], n, rest)
    | _ => none

def readBlockValue (fuel : Nat) (n : Names) (ts : List Token) : Option (Taken Node) :=
  match fuel with
  | 0 => none
  | fuel + 1 =>
    match ts with
    | .value :: rest =>
      readUnless (fun t => t == .key || t == .value || t == .blockEnd) true true fuel n rest
    | _ => some (.blank, n, ts)

def readFlowItems (first : Bool) (fuel : Nat) (n : Names) (ts : List Token) :
    Option (Taken (List Node)) :=
  match fuel with
  | 0 => none
  | fuel + 1 =>
    match ts with
    | .flowSequenceEnd :: rest => some ([], n, rest)
    | _ => do
      let ts ← if first then some ts else
        match ts with
        | .flowEntry :: rest => some rest
        | _ => none
      match ts with
      | .flowSequenceEnd :: rest => some ([], n, rest)
      | .key :: rest =>
        let stop (t : Token) : Bool := t == .flowEntry || t == .flowSequenceEnd
        let (key, n, rest) ← readFlowKey (fun t => t == .value || stop t) fuel n rest
        let (value, n, rest) ← readFlowValue stop fuel n rest
        let (items, n, rest) ← readFlowItems false fuel n rest
        some (.mapping none [(key, value)] :: items, n, rest)
      | _ =>
        let (item, n, rest) ← readNode false false fuel n ts
        let (items, n, rest) ← readFlowItems false fuel n rest
        some (item :: items, n, rest)

def readFlowEntries (first : Bool) (fuel : Nat) (n : Names) (ts : List Token) :
    Option (Taken (List (Node × Node))) :=
  match fuel with
  | 0 => none
  | fuel + 1 =>
    match ts with
    | .flowMappingEnd :: rest => some ([], n, rest)
    | _ => do
      let ts ← if first then some ts else
        match ts with
        | .flowEntry :: rest => some rest
        | _ => none
      let stop (t : Token) : Bool := t == .flowEntry || t == .flowMappingEnd
      match ts with
      | .flowMappingEnd :: rest => some ([], n, rest)
      | .key :: rest =>
        let (key, n, rest) ← readUnless (fun t => t == .value || stop t) false false fuel n rest
        let (value, n, rest) ← readFlowValue stop fuel n rest
        let (entries, n, rest) ← readFlowEntries false fuel n rest
        some ((key, value) :: entries, n, rest)
      | _ =>
        let (key, n, rest) ← readNode false false fuel n ts
        let (entries, n, rest) ← readFlowEntries false fuel n rest
        some ((key, .blank) :: entries, n, rest)

/-- The key after a question mark in a sequence in brackets. A blank key takes the sign behind it
with it: a colon there does not announce a value, nor does a bracket close the sequence. -/
def readFlowKey (stop : Token → Bool) (fuel : Nat) (n : Names) (ts : List Token) :
    Option (Taken Node) :=
  match fuel with
  | 0 => none
  | fuel + 1 =>
    if ts.head?.any stop then some (.blank, n, ts.tail) else readNode false false fuel n ts

def readFlowValue (stop : Token → Bool) (fuel : Nat) (n : Names) (ts : List Token) :
    Option (Taken Node) :=
  match fuel with
  | 0 => none
  | fuel + 1 =>
    match ts with
    | .value :: rest => readUnless stop false false fuel n rest
    | _ => some (.blank, n, ts)

end

/-- The directives in front of a document: one version at most, each handle once. -/
def readDirectives (version : Bool) (handles : List (String × Tag)) :
    List Token → Option (List (String × Tag) × List Token)
  | .version :: rest => if version then none else readDirectives true handles rest
  | .tagDirective handle lead :: rest =>
    if (handles.lookup handle).isSome then none
    else readDirectives version ((handle, lead) :: handles) rest
  | ts => some (handles, ts)

def isDocumentEnd (t : Token) : Bool := t == .documentEnd

def isOutside : Token → Bool
  | .version | .tagDirective .. | .documentStart | .documentEnd => true
  | _ => false

def readRoot (handles : List (String × Tag)) (ts : List Token) : Option (Tree × List Token) :=
  (readNode true false (4 * ts.length + 8) ⟨[], [], handles⟩ ts).map fun (node, n, ts) =>
    (⟨node, n.anchored⟩, ts)

def readAnnounced (handles : List (String × Tag)) (ts : List Token) : Option (Tree × List Token) :=
  if ts.head?.all isOutside then some (⟨.blank, []⟩, ts) else readRoot handles ts

/-- The one document of a stream of tokens. It need not be announced, but then it has to have a
root. -/
def readStream (ts : List Token) : Option Tree := do
  let (tree, ts) ←
    match ts with
    | [] => return ⟨.absent, []⟩
    | t :: _ =>
      if !isOutside t || isDocumentEnd t then readRoot [] ts
      else
        let (handles, ts) ← readDirectives false [] ts
        match ts with
        | .documentStart :: ts => readAnnounced handles ts
        | _ => none
  match ts.dropWhile isDocumentEnd with
  | [] => some tree
  | _ => none

def parse? (text : String) : Option Tree := (tokenize? text).bind readStream

end Cuescript.Yaml
