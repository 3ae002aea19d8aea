/-!
White space and trimming. The blank characters are the 25 with the Unicode property White_Space;
`trim` takes them off both ends.
-/
namespace Cuescript.Text

def isBlank (c : Char) : Bool :=
  let n := c.toNat
  (9 ≤ n && n ≤ 13) || n == 0x20 || n == 0x85 || n == 0xA0 || n == 0x1680 ||
    (0x2000 ≤ n && n ≤ 0x200A) || n == 0x2028 || n == 0x2029 || n == 0x202F || n == 0x205F ||
    n == 0x3000

def trimFront (cs : List Char) : List Char := cs.dropWhile isBlank

def trimBack (cs : List Char) : List Char := (trimFront cs.reverse).reverse

def trim (cs : List Char) : List Char := trimBack (trimFront cs)

def trimmed (s : String) : String := String.ofList (trim s.toList)

theorem head_trimFront {c : Char} {cs rest : List Char} (h : trimFront cs = c :: rest) :
    isBlank c = false := by
  have first := List.head?_dropWhile_not isBlank cs
  rwa [show cs.dropWhile isBlank = c :: rest from h] at first

end Cuescript.Text
