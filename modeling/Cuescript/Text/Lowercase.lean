import Cuescript.Text.Alphanumeric
import Cuescript.Text.CaseTable

/-!
Lower case of a text by the full Unicode rule: each character by the simple mapping, except that
a capital I with a dot becomes two characters and a capital sigma at the end of a word takes its
final form. Main statements: on ASCII text the rule is the plain one, character by character.
-/
namespace Cuescript.Text

def lowerSimple (c : Char) : Char :=
  if c.toNat < 128 then c.toLower
  else
    match lowerRuns.find? fun r =>
        r.first ≤ c.toNat && c.toNat ≤ r.last && (c.toNat - r.first) % r.stride == 0 with
    | some r => Char.ofNat (c.toNat + r.shift).toNat
    | none => c

def lowerChar (c : Char) : List Char :=
  if c.toNat = 0x130 then ['i', Char.ofNat 0x307] else [lowerSimple c]

def isCased (c : Char) : Bool :=
  if c.toNat < 128 then c.isAlpha else inRanges c.toNat casedRanges

def isCaseIgnorable (c : Char) : Bool :=
  if c.toNat < 128 then c.toNat == 39 || c == '.' || c == ':' || c == '^' || c.toNat == 96
  else inRanges c.toNat caseIgnorableRanges

/-- Whether the first character that is not passed over has a case. -/
def meetsCased (cs : List Char) : Bool :=
  match cs.dropWhile isCaseIgnorable with
  | c :: _ => isCased c
  | [] => false

def lowerFrom (before : List Char) : List Char → List Char
  | [] => []
  | c :: rest =>
    let lower :=
      if c.toNat = 0x3A3 then
        [Char.ofNat (if meetsCased before && !meetsCased rest then 0x3C2 else 0x3C3)]
      else lowerChar c
    lower ++ lowerFrom (c :: before) rest

def lower (cs : List Char) : List Char := lowerFrom [] cs

def lowercase (s : String) : String := String.ofList (lower s.toList)

theorem lowerFrom_ascii (before cs : List Char) (h : ∀ c ∈ cs, c.toNat < 128) :
    lowerFrom before cs = cs.map Char.toLower := by
  induction cs generalizing before with
  | nil => rfl
  | cons c rest ih =>
    have hc : c.toNat < 128 := h c (by simp)
    have h1 : c.toNat ≠ 0x3A3 := by omega
    have h2 : c.toNat ≠ 0x130 := by omega
    simp [lowerFrom, lowerChar, lowerSimple, hc, h1, h2,
      ih (c :: before) fun d hd => h d (by simp [hd])]

theorem lower_ascii (cs : List Char) (h : ∀ c ∈ cs, c.toNat < 128) :
    lower cs = cs.map Char.toLower := lowerFrom_ascii [] cs h

def eqIgnoringAsciiCase (s t : String) : Bool :=
  s.toList.map Char.toLower == t.toList.map Char.toLower

end Cuescript.Text
