/-!
Lengths of time and points in time, both counted in nanoseconds. A `Duration` is never negative;
an `Instant` is counted from the beginning of 1970 and may lie before it. Main statements: how
`since` and `after` undo each other, and what is left of a duration that has begun.
-/
namespace Cuescript

@[ext] structure Duration where
  nanos : Nat
  deriving DecidableEq, Inhabited

@[ext] structure Instant where
  nanos : Int
  deriving DecidableEq, Inhabited

namespace Duration

def zero : Duration := ⟨0⟩
def ofMicros (n : Nat) : Duration := ⟨n * 1000⟩
def ofMillis (n : Nat) : Duration := ⟨n * 1000000⟩
def ofSeconds (n : Nat) : Duration := ⟨n * 1000000000⟩

def micros (d : Duration) : Nat := d.nanos / 1000

def millis (d : Duration) : Nat := d.nanos / 1000000

def seconds (d : Duration) : Nat := d.nanos / 1000000000

def hasFraction (d : Duration) : Bool := d.nanos % 1000000000 != 0

def isZero (d : Duration) : Bool := d.nanos == 0

def minus (d e : Duration) : Duration := ⟨d.nanos - e.nanos⟩

instance : LT Duration := ⟨fun d e => d.nanos < e.nanos⟩
instance : LE Duration := ⟨fun d e => d.nanos ≤ e.nanos⟩
instance (d e : Duration) : Decidable (d < e) := inferInstanceAs (Decidable (d.nanos < e.nanos))
instance (d e : Duration) : Decidable (d ≤ e) := inferInstanceAs (Decidable (d.nanos ≤ e.nanos))

theorem lt_def (d e : Duration) : d < e ↔ d.nanos < e.nanos := Iff.rfl
theorem le_def (d e : Duration) : d ≤ e ↔ d.nanos ≤ e.nanos := Iff.rfl

@[simp] theorem millis_ofMillis (n : Nat) : (ofMillis n).millis = n := by
  simp [ofMillis, millis]

end Duration

namespace Instant

def ofMicros (n : Int) : Instant := ⟨n * 1000⟩
def ofMillis (n : Int) : Instant := ⟨n * 1000000⟩
def ofSeconds (n : Int) : Instant := ⟨n * 1000000000⟩

def micros (t : Instant) : Int := t.nanos.fdiv 1000

def millis (t : Instant) : Int := t.nanos.fdiv 1000000

def after (t : Instant) (d : Duration) : Instant := ⟨t.nanos + d.nanos⟩

def move (t : Instant) (nanos : Int) : Instant := ⟨t.nanos + nanos⟩

def since (t earlier : Instant) : Duration := ⟨(t.nanos - earlier.nanos).toNat⟩

instance : LT Instant := ⟨fun s t => s.nanos < t.nanos⟩
instance : LE Instant := ⟨fun s t => s.nanos ≤ t.nanos⟩
instance (s t : Instant) : Decidable (s < t) := inferInstanceAs (Decidable (s.nanos < t.nanos))
instance (s t : Instant) : Decidable (s ≤ t) := inferInstanceAs (Decidable (s.nanos ≤ t.nanos))

theorem lt_def (s t : Instant) : s < t ↔ s.nanos < t.nanos := Iff.rfl
theorem le_def (s t : Instant) : s ≤ t ↔ s.nanos ≤ t.nanos := Iff.rfl

theorem since_after (t : Instant) (d : Duration) : (t.after d).since t = d := by
  ext
  show ((t.nanos + d.nanos) - t.nanos).toNat = d.nanos
  omega

theorem after_since {s t : Instant} (h : s ≤ t) : s.after (t.since s) = t := by
  rw [le_def] at h
  ext
  show s.nanos + ((t.nanos - s.nanos).toNat : Int) = t.nanos
  omega

theorem after_le {s t : Instant} {d : Duration} (gone : d ≤ t.since s) (some : d.isZero = false) :
    s.after d ≤ t := by
  simp only [Duration.le_def, since, le_def, after, Duration.isZero, beq_eq_false_iff_ne] at *
  omega

theorem after_minus_since {s t : Instant} {d : Duration} (later : s ≤ t) (early : t.since s < d) :
    t.after (d.minus (t.since s)) = s.after d := by
  rw [le_def] at later
  rw [Duration.lt_def] at early
  ext
  simp only [after, since, Duration.minus] at early ⊢
  omega

theorem minus_since_after {s t : Instant} (later : s ≤ t) (d e : Duration) :
    d.minus ((t.after e).since s) = (d.minus (t.since s)).minus e := by
  rw [le_def] at later
  ext
  simp only [after, since, Duration.minus]
  omega

theorem since_lt_iff {s t : Instant} {d : Duration} (some : d.isZero = false) :
    t.since s < d ↔ ¬ s.after d ≤ t := by
  simp only [Duration.lt_def, since, le_def, after, Duration.isZero, beq_eq_false_iff_ne] at *
  omega

end Instant

end Cuescript
