import Cuescript.Text.Blank
import Cuescript.Text.Numeral
import Cuescript.Time.Basic

/-!
Durations in writing. A text such as `500`, `5s` or `1h30m` is read as a number of milliseconds or
as a sum of parts, each a number and a unit. A duration is written in milliseconds below one
second, rounded down, and from there on with the units from days to seconds, rounded up. The seconds
are counted in a 64-bit word, and where they leave it writing the text crashes.
-/
namespace Cuescript.Duration

def unitMillis? : List Char → Option Nat
  | ['m', 's'] => some 1
  | ['s'] => some 1000
  | ['m'] => some 60000
  | ['h'] => some 3600000
  | ['d'] => some 86400000
  | ['w'] => some 604800000
  | _ => none

def partMillis? (number unit : List Char) : Option Nat :=
  let n := Text.digitsValue 0 number
  if n < Text.wordLimit then
    (unitMillis? unit).bind fun each => if n * each < Text.wordLimit then some (n * each) else none
  else none

theorem length_dropWhile_lt {p : Char → Bool} {cs : List Char} (h : cs.takeWhile p ≠ []) :
    (cs.dropWhile p).length < cs.length := by
  have pos := List.length_pos_iff.mpr h
  have whole := congrArg List.length (List.takeWhile_append_dropWhile (p := p) (l := cs))
  rw [List.length_append] at whole
  omega

/-- The sum of the parts in milliseconds, on top of `total`. It stays below 2^64 seconds. -/
def sumParts? (total : Nat) (cs : List Char) : Option Nat :=
  if cs = [] then some total
  else
    if _h : cs.takeWhile Char.isDigit = [] then none
    else
      let rest := cs.dropWhile Char.isDigit
      (partMillis? (cs.takeWhile Char.isDigit) (rest.takeWhile (! ·.isDigit))).bind fun part =>
        if total + part < Text.wordLimit * 1000 then
          sumParts? (total + part) (rest.dropWhile (! ·.isDigit))
        else none
termination_by cs.length
decreasing_by
  exact Nat.lt_of_le_of_lt (List.dropWhile_sublist _).length_le (length_dropWhile_lt _h)

/-- A bare number counts milliseconds; any other text has to be a sequence of parts. -/
def read? (text : String) : Option Duration :=
  let cs := Text.trim text.toList
  if cs = [] then none
  else
    match Text.readInteger 0 (Text.wordLimit - 1) cs with
    | .ok n => some (ofMillis n.toNat)
    | .error _ => (sumParts? 0 cs).map ofMillis

/-- The message of the crash where a sum leaves its word. -/
def overflow : String := "attempt to add with overflow"

/-- The whole seconds shown: a fraction counts as one more. -/
def shownSeconds (d : Duration) : Nat := d.seconds + if d.hasFraction then 1 else 0

/-- The parts of a number of seconds that are not zero, in descending units. -/
def secondParts (secs : Nat) : List (List Char) :=
  [(secs / 86400, 'd'), (secs % 86400 / 3600, 'h'), (secs % 3600 / 60, 'm'), (secs % 60, 's')]
    |>.filter (fun p => p.1 != 0)
    |>.map fun p => Text.decimal p.1 ++ [p.2]

/-- Milliseconds below one second, else days, hours, minutes and seconds with blanks between. -/
def text (d : Duration) : String :=
  String.ofList <|
    if d.millis < 1000 then Text.decimal d.millis ++ ['m', 's']
    else [' '].intercalate (secondParts d.shownSeconds)

/-- The text, unless counting the seconds for it crashes. -/
def text? (d : Duration) : Option String :=
  if d.shownSeconds < Text.wordLimit then some d.text else none

end Cuescript.Duration
