import Cuescript.Script.Document
import Cuescript.Yaml.Node
import Cuescript.Yaml.Plain

/-!
Two ways to read values from a YAML document. Where it is read directly, the wanted type decides
what a scalar is, so every scalar is a text if a text is wanted. Where its values are told apart
first, a plain scalar that looks like a number, a truth value or nothing is no text. Aliases are
followed only where a value is wanted, so a node that contains itself does no harm elsewhere.
-/
namespace Cuescript.Yaml

def coreTag (name : String) : Tag := coreLead ++ bytesOf name

/-- Whether a scalar may be a truth value or a number: plain, or a literal tagged so. -/
def mayBe (wanted : String) (tag : Option Tag) (style : Style) : Bool :=
  style = .plain || (style = .literal && tag = some (coreTag wanted))

/-- A plain scalar without characters stands for an empty collection as well. -/
def Node.isBlank : Node → Bool
  | .absent => true
  | .scalar _ style text => style = .plain && text = ""
  | _ => false

/-- Whether a scalar says that there is no value. One tagged as nothing has to say so. -/
def scalarIsAbsent? (tag : Option Tag) (style : Style) (text : String) : Option Bool :=
  if style != .plain then some false
  else
    match tag with
    | some t =>
      if t = coreTag "null" then if isNullWord text then some true else none
      else some false
    | none => some (text = "" || isNullWord text)

namespace Tree

def meant (t : Tree) : Node → Node
  | .reference k => (t.anchored.lookup k).getD .absent
  | n => n

/-- The root of the document, which may be an alias where the document is part of another. -/
def node (t : Tree) : Node := t.meant t.root

def part (t : Tree) (n : Node) : Tree := { t with root := n }

def text? (t : Tree) : Option String :=
  match t.node with
  | .scalar _ _ text => some text
  | _ => none

/-- The fields of a mapping; `none` if one is there twice. Every key has to be a scalar. -/
def fieldsOf? (t : Tree) (names : List (List String)) (entries : List (Node × Node)) :
    Option (List (Option Tree)) := do
  let fields ← entries.mapM fun e => (t.part e.1).text?.map fun key => (key, t.part e.2)
  names.mapM fun ns =>
    match fields.filter fun f => ns.contains f.1 with
    | [] => some none
    | [f] => some (some f.2)
    | _ => none

end Tree

instance : Document Tree where
  text? := Tree.text?
  bool? t :=
    match t.node with
    | .scalar tag style text => if mayBe "bool" tag style then boolWord? text else none
    | _ => none
  word? t :=
    match t.node with
    | .scalar tag style text => if mayBe "int" tag style then Yaml.word? text else none
    | _ => none
  items? t :=
    match t.node with
    | .sequence _ items => some (items.map t.part)
    | n => if n.isBlank then some [] else none
  isAbsent? t :=
    match t.node with
    | .absent => some true
    | .scalar tag style text => scalarIsAbsent? tag style text
    | _ => some false
  fields? names t :=
    match t.node with
    | .mapping _ entries => t.fieldsOf? names entries
    | n => if n.isBlank then some (names.map fun _ => none) else none

/-- A document whose values have been told apart. A whole number written with a minus sign, be it
zero, is `signed`. -/
inductive Untyped where
  | null
  | bool (b : Bool)
  | word (n : Nat)
  | signed (n : Int)
  | float
  | text (s : String)
  | list (items : List Untyped)
  | map (entries : List (Untyped × Untyped))

namespace Untyped

def isWithin (below above : Nat) (n : Int) : Bool :=
  -(Nat.pow 2 below : Int) ≤ n && n < (Nat.pow 2 above : Int)

def ofInteger (written : String) (n : Int) : Option Untyped :=
  if isWithin 63 64 n then some (if written.startsWith "-" then .signed n else .word n.toNat)
  else none

def isWide (n : Int) : Bool := isWithin 127 128 n

def ofPlain (s : String) : Option Untyped :=
  if s = "" || isNullWord s then some .null
  else
    match boolWord? s with
    | some b => some (.bool b)
    | none =>
      match (integer? s).filter isWide with
      | some n => ofInteger s n
      | none => some (if !isZeroPadded s && isFloat s then .float else .text s)

/-- A tag of the script's own: an exclamation mark, and more that is a text in UTF-8. -/
def isOwnTag (tag : Option Tag) : Bool :=
  match tag with
  | some (b :: name) => b = 0x21 && (String.fromUTF8? ⟨name.toArray⟩).isSome
  | _ => false

/-- The value of a scalar. A tag of the core schema decides; a tag of the script's own is refused,
and one that only begins like it counts for nothing on a plain scalar. -/
def ofScalar (tag : Option Tag) (style : Style) (s : String) : Option Untyped :=
  match tag with
  | none => if style = .plain then ofPlain s else some (.text s)
  | some t =>
    if isOwnTag tag then none
    else if t = coreTag "bool" then (boolWord? s).map .bool
    else if t = coreTag "int" then (integer? s).bind (ofInteger s)
    else if t = coreTag "float" then if isFloat s then some .float else none
    else if t = coreTag "null" then if isNullWord s then some .null else none
    else if t.head? = some 0x21 && style = .plain then ofPlain s
    else some (.text s)

abbrev Reading := StateT Nat Option

def follow (t : Tree) (n : Node) : Reading Node :=
  match n with
  | .reference _ => fun left => if left = 0 then none else some (t.meant n, left - 1)
  | n => pure n

def ofLeaf : Node → Option Untyped
  | .absent => some .null
  | .scalar tag style s => ofScalar tag style s
  | _ => none

/-- Tells the values of a node apart that nests at most so many collections, aliases followed. Tags
of the script's own are refused on collections too. -/
def ofNode (t : Tree) : Nat → Node → Reading Untyped
  | 0, n => do StateT.lift (ofLeaf (← follow t n))
  | depth + 1, n => do
    match ← follow t n with
    | .sequence tag items =>
      if isOwnTag tag then failure else return .list (← items.mapM (ofNode t depth))
    | .mapping tag entries =>
      if isOwnTag tag then failure
      else
        return .map (← entries.mapM fun e => do
          return (← ofNode t depth e.1, ← ofNode t depth e.2))
    | leaf => StateT.lift (ofLeaf leaf)

/-- A document of at most 128 levels, in which a hundred times as many aliases may be followed as it
has beginnings and ends. -/
def ofTree (t : Tree) : Option Untyped :=
  ((ofNode t 128 t.root).run (100 * t.root.marks)).map Prod.fst

def isKeyOf (names : List String) (number : Nat) : Untyped → Bool
  | .text s => names.contains s
  | .word n => n = number
  | _ => false

def isKey : Untyped → Bool
  | .text _ | .word _ => true
  | _ => false

def fieldsFrom (entries : List (Untyped × Untyped)) (number : Nat) :
    List (List String) → Option (List (Option Untyped))
  | [] => some []
  | ns :: rest => do
    let v ←
      match entries.filter fun e => isKeyOf ns number e.1 with
      | [] => some none
      | [e] => some (some e.2)
      | _ => none
    some (v :: (← fieldsFrom entries (number + 1) rest))

end Untyped

instance : Document Untyped where
  text? | .text s => some s
        | _ => none
  bool? | .bool b => some b
        | _ => none
  word? | .word n => some n
        | .signed n => if 0 ≤ n then some n.toNat else none
        | _ => none
  items? | .list items => some items
         | _ => none
  isAbsent? | .null => some true
            | _ => some false
  fields? names
    | .map entries =>
      if entries.all fun e => Untyped.isKey e.1 then Untyped.fieldsFrom entries 0 names else none
    | .list items =>
      if items.length ≤ names.length then
        some (items.map some ++ List.replicate (names.length - items.length) none)
      else none
    | _ => none

end Cuescript.Yaml
