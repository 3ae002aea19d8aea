import Cuescript.Text.Blank
import Cuescript.Text.Numeral
import Cuescript.Time.Basic

/-!
Dates and times of day. A timestamp counts seconds from the beginning of 1970 and nanoseconds
within the second; a leap second is the second before it with a thousand million nanoseconds more.
Timestamps are read in the form of RFC 3339, blanks between the parts allowed, and written in UTC.
-/
namespace Cuescript

structure Timestamp where
  seconds : Int
  nanos : Nat
  deriving DecidableEq, Inhabited

namespace Timestamp

def ofInstant (t : Instant) : Timestamp :=
  ⟨t.nanos.fdiv 1000000000, (t.nanos.fmod 1000000000).toNat⟩

def ofMillis (ms : Int) : Timestamp := ofInstant (.ofMillis ms)

def millis (t : Timestamp) : Int := t.seconds * 1000 + t.nanos / 1000000

/-- Days from the beginning of 1970 to a date. The year is taken to begin in March, so that the
leap day is its last. -/
def dayNumber (year : Int) (month day : Nat) : Int :=
  let y := if month ≤ 2 then year - 1 else year
  let m : Int := (month + 9) % 12
  let era := y.fdiv 400
  let inEra := y - era * 400
  era * 146097 + (inEra * 365 + inEra / 4 - inEra / 100) + ((153 * m + 2) / 5 + day - 1) - 719468

def dateOfDay (n : Int) : Int × Nat × Nat :=
  let z := n + 719468
  let era := z.fdiv 146097
  let inEra := (z - era * 146097).toNat
  let y := (inEra - inEra / 1460 + inEra / 36524 - inEra / 146096) / 365
  let ofYear := inEra - (365 * y + y / 4 - y / 100)
  let m := (5 * ofYear + 2) / 153
  let day := ofYear - (153 * m + 2) / 5 + 1
  let month := if m < 10 then m + 3 else m - 9
  ((y : Int) + era * 400 + (if month ≤ 2 then 1 else 0), month, day)

def isLeapYear (year : Int) : Bool := year % 4 = 0 && (year % 100 ≠ 0 || year % 400 = 0)

def daysInMonth (year : Int) (month : Nat) : Nat :=
  if month = 2 then (if isLeapYear year then 29 else 28)
  else if month ∈ [4, 6, 9, 11] then 30 else 31

def takeNumber (most : Nat) (cs : List Char) : Option (Nat × List Char) :=
  let ds := (cs.take most).takeWhile Char.isDigit
  if ds.isEmpty then none else some (Text.digitsValue 0 ds, cs.drop ds.length)

def takeField (cs : List Char) : Option (Nat × List Char) := takeNumber 2 (Text.trimFront cs)

def takeYear (cs : List Char) : Option (Int × List Char) :=
  match Text.trimFront cs with
  | '-' :: rest => (takeNumber rest.length rest).map fun (n, rest) => (-(n : Int), rest)
  | '+' :: rest => (takeNumber rest.length rest).map fun (n, rest) => ((n : Int), rest)
  | rest => (takeNumber 4 rest).map fun (n, rest) => ((n : Int), rest)

def takeSign (sign : Char) (cs : List Char) : Option (List Char) :=
  match Text.trimFront cs with
  | c :: rest => if c = sign then some rest else none
  | [] => none

/-- The fraction of a second in nanoseconds; digits beyond the ninth are passed over. -/
def takeFraction (cs : List Char) : Option (Nat × List Char) :=
  match cs with
  | '.' :: rest =>
    let ds := rest.takeWhile Char.isDigit
    if ds.isEmpty then none
    else
      let nine := ds.take 9
      some (Text.digitsValue 0 nine * Nat.pow 10 (9 - nine.length), rest.drop ds.length)
  | _ => some (0, cs)

def takeOffset (cs : List Char) : Option (Int × List Char) :=
  match cs with
  | 'Z' :: rest | 'z' :: rest => some (0, rest)
  | u :: t :: c :: rest =>
    if u.toUpper = 'U' && t.toUpper = 'T' && c.toUpper = 'C' then some (0, rest)
    else takeHours (u :: t :: c :: rest)
  | _ => none
where
  takeHours : List Char → Option (Int × List Char)
    | sign :: a :: b :: rest =>
      let negative := sign = '-' || sign = Char.ofNat 0x2212
      if (negative || sign = '+') && a.isDigit && b.isDigit then
        match rest.dropWhile fun c => c = ':' || Text.isBlank c with
        | c :: d :: rest =>
          let minutes := Text.digitsValue 0 [c, d]
          if c.isDigit && d.isDigit && minutes < 60 then
            let secs : Int := Text.digitsValue 0 [a, b] * 3600 + minutes * 60
            if secs < 86400 then some (if negative then -secs else secs, rest) else none
          else none
        | _ => none
      else none
    | _ => none

def takeBetween : List Char → Option (List Char)
  | 'T' :: rest | 't' :: rest | ' ' :: rest => some rest
  | _ => none

def inReach (year : Int) : Bool := -262143 ≤ year && year ≤ 262142

/-- Whether a day counted from the beginning of 1970 is one of the calendar's. -/
def isDay (n : Int) : Bool := dayNumber (-262143) 1 1 ≤ n && n ≤ dayNumber 262142 12 31

/-- Reads a timestamp with its offset. Both the day that is written and the day in UTC have to be on
the calendar. -/
def read? (text : String) : Option Timestamp := do
  let (year, cs) ← takeYear text.toList
  let (month, cs) ← takeField (← takeSign '-' cs)
  let (day, cs) ← takeField (← takeSign '-' cs)
  let (hour, cs) ← takeField (← takeBetween cs)
  let (minute, cs) ← takeField (← takeSign ':' cs)
  let (second, cs) ← takeField (← takeSign ':' cs)
  let (nanos, cs) ← takeFraction cs
  let (offset, cs) ← takeOffset (Text.trimFront cs)
  if !(Text.trimFront cs).isEmpty then none
  else if !(inReach year && 1 ≤ month && month ≤ 12 && 1 ≤ day && day ≤ daysInMonth year month) then
    none
  else if !(hour < 24 && minute < 60 && second ≤ 60) then none
  else
    let leap := second = 60
    let inDay : Int := hour * 3600 + minute * 60 + (if leap then 59 else second : Nat)
    let seconds := dayNumber year month day * 86400 + inDay - offset
    if isDay (seconds.fdiv 86400) then
      some ⟨seconds, nanos + (if leap then 1000000000 else 0)⟩
    else none

def padded (width n : Nat) : List Char :=
  let ds := Text.decimal n
  List.replicate (width - ds.length) '0' ++ ds

def yearText (year : Int) : List Char :=
  if 0 ≤ year && year ≤ 9999 then padded 4 year.toNat
  else (if year < 0 then '-' else '+') :: padded 4 year.natAbs

/-- The fraction in milli-, micro- or nanoseconds, the coarsest that is exact. -/
def fractionText (nanos : Nat) : List Char :=
  if nanos = 0 then []
  else if nanos % 1000000 = 0 then '.' :: padded 3 (nanos / 1000000)
  else if nanos % 1000 = 0 then '.' :: padded 6 (nanos / 1000)
  else '.' :: padded 9 nanos

def text (t : Timestamp) : String :=
  let (year, month, day) := dateOfDay (t.seconds.fdiv 86400)
  let secs := (t.seconds.fmod 86400).toNat
  let leap := t.nanos ≥ 1000000000
  let nanos := if leap then t.nanos - 1000000000 else t.nanos
  String.ofList <|
    yearText year ++ '-' :: padded 2 month ++ '-' :: padded 2 day ++ 'T' :: padded 2 (secs / 3600)
      ++ ':' :: padded 2 (secs % 3600 / 60) ++ ':' :: padded 2 (secs % 60 + if leap then 1 else 0)
      ++ fractionText nanos ++ ['Z']

end Timestamp

end Cuescript
