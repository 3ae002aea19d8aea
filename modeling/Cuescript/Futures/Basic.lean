import Cuescript.Outcome.Basic

/-!
Outcomes that come later. A future is a cell that takes one outcome, once; listeners on it are
called when it does, in the order of registration, or at once if it already has. A listener may
complete other futures in turn, so one completion can set off a cascade; the cascade ends because
every call uses up a listener. Main statement: how the calls of one listener are bounded.
-/
namespace Cuescript

structure FutureId where
  number : Nat
  deriving DecidableEq, Inhabited

/-- What is called with the outcome of a future. A reaction completes futures in order, each with
what it makes of the outcome, or leaves it alone. -/
inductive Listener (ν : Type) where
  | note (label : ν)
  | relay (next : FutureId)
  | fill (join index : Nat)
  | react (replies : List (FutureId × (Outcome → Option Outcome)))

/-- The calls that a call of the listener is worth, with those it makes of its own accord. -/
def Listener.worth {ν : Type} : Listener ν → Nat
  | .react replies => replies.length + 1
  | _ => 1

def Listener.worths {ν : Type} : List (Listener ν) → Nat
  | [] => 0
  | l :: rest => l.worth + worths rest

theorem Listener.worths_append {ν : Type} (ls ls' : List (Listener ν)) :
    worths (ls ++ ls') = worths ls + worths ls' := by
  induction ls with
  | nil => exact (Nat.zero_add _).symm
  | cons l rest ih => rw [List.cons_append, worths, worths, ih, Nat.add_assoc]

theorem Listener.worths_filter {ν : Type} (p : FutureId × Listener ν → Prop) [DecidablePred p]
    (ls : List (FutureId × Listener ν)) :
    worths ((ls.filter fun l => ¬ p l).map Prod.snd) +
      worths ((ls.filter fun l => p l).map Prod.snd) = worths (ls.map Prod.snd) := by
  induction ls with
  | nil => rfl
  | cons l rest ih => by_cases h : p l <;> simp_all [worths] <;> omega

structure Join where
  into : FutureId
  places : List (Option Outcome)

def Join.result? (j : Join) : Option Outcome :=
  if j.places.all Option.isSome then some (Outcome.all (j.places.filterMap id)) else none

/-- All futures: their values, the joins between them, the listeners of the futures without a
value in order of registration, and the notes taken so far. -/
structure Futures (ν : Type) where
  values : List (Option Outcome)
  joins : List Join
  waiting : List (FutureId × Listener ν)
  heard : List (ν × Outcome)

namespace Futures

variable {ν : Type}

def empty : Futures ν := ⟨[], [], [], []⟩

def value? (s : Futures ν) (f : FutureId) : Option Outcome := (s.values[f.number]?).join

def isComplete (s : Futures ν) (f : FutureId) : Bool := (s.value? f).isSome

abbrev Call (ν : Type) := Listener ν × Outcome

def assign (s : Futures ν) (f : FutureId) (o : Outcome) : Futures ν × List (Call ν) :=
  if s.isComplete f then (s, [])
  else
    ({ s with
        values := s.values.set f.number (some o)
        waiting := s.waiting.filter fun l => l.1 ≠ f },
      (s.waiting.filter fun l => l.1 = f).map fun l => (l.2, o))

def fill (s : Futures ν) (join index : Nat) (o : Outcome) : Futures ν × List (Call ν) :=
  match s.joins[join]? with
  | none => (s, [])
  | some j =>
    let j := { j with places := j.places.set index (some o) }
    let s := { s with joins := s.joins.set join j }
    match j.result? with
    | some result => s.assign j.into result
    | none => (s, [])

def call (s : Futures ν) (c : Call ν) : Futures ν × List (Call ν) :=
  match c.1 with
  | .note label => ({ s with heard := s.heard ++ [(label, c.2)] }, [])
  | .relay next => s.assign next c.2
  | .fill join index => s.fill join index c.2
  | .react replies => (s, replies.filterMap fun r => (r.2 c.2).map fun o => (.relay r.1, o))

/-- The calls that can still come, from the listeners that wait and from those that are due. -/
def outstanding (s : Futures ν) (due : List (Call ν)) : Nat :=
  Listener.worths (s.waiting.map Prod.snd) + Listener.worths (due.map Prod.fst)

theorem assign_bound (s : Futures ν) (f : FutureId) (o : Outcome) :
    (s.assign f o).1.outstanding (s.assign f o).2 = s.outstanding [] := by
  unfold assign
  split
  · rfl
  · have whole := Listener.worths_filter (fun l : FutureId × Listener ν => l.1 = f) s.waiting
    simpa [outstanding, Function.comp_def, Listener.worths] using whole

theorem fill_bound (s : Futures ν) (join index : Nat) (o : Outcome) :
    (s.fill join index o).1.outstanding (s.fill join index o).2 = s.outstanding [] := by
  unfold fill
  split
  · rfl
  · dsimp only
    split
    · exact assign_bound _ _ _
    · rfl

theorem worths_replies (o : Outcome) (replies : List (FutureId × (Outcome → Option Outcome))) :
    Listener.worths ((replies.filterMap fun r =>
      (r.2 o).map fun o' => ((.relay r.1 : Listener ν), o')).map Prod.fst) ≤ replies.length := by
  induction replies with
  | nil => exact Nat.le_refl 0
  | cons r rest ih =>
    cases made : r.2 o with
    | none => simpa [made] using Nat.le_succ_of_le ih
    | some o' =>
      have one : (Listener.relay r.1 : Listener ν).worth = 1 := rfl
      simp only [List.filterMap_cons, made, Option.map_some, List.map_cons, Listener.worths, one,
        List.length_cons]
      omega

theorem call_bound (s : Futures ν) (c : Call ν) :
    (s.call c).1.outstanding (s.call c).2 < s.outstanding [c] := by
  obtain ⟨l, o⟩ := c
  have one : s.outstanding [] < s.outstanding [(l, o)] := by
    cases l <;> simp [outstanding, Listener.worths, Listener.worth]
  cases l with
  | note label => exact one
  | relay next => exact Nat.lt_of_le_of_lt (Nat.le_of_eq (assign_bound s next o)) one
  | fill join index => exact Nat.lt_of_le_of_lt (Nat.le_of_eq (fill_bound s join index o)) one
  | react replies =>
    have fewer := worths_replies (ν := ν) o replies
    change _ + _ < _ + ((replies.length + 1) + 0)
    exact Nat.add_lt_add_left (Nat.lt_succ_of_le fewer) _

/-- Makes all calls that are due, and those that become due through them, depth first. -/
def settle (s : Futures ν) (due : List (Call ν)) : Futures ν :=
  match due with
  | [] => s
  | c :: rest =>
    let next := s.call c
    settle next.1 (next.2 ++ rest)
termination_by s.outstanding due
decreasing_by
  have bound := call_bound s c
  simp only [outstanding, List.map_append, Listener.worths_append, List.map_cons, List.map_nil,
    Listener.worths] at bound ⊢
  omega

def pending (s : Futures ν) : FutureId × Futures ν :=
  (⟨s.values.length⟩, { s with values := s.values ++ [none] })

def completed (s : Futures ν) (o : Outcome) : FutureId × Futures ν :=
  (⟨s.values.length⟩, { s with values := s.values ++ [some o] })

def complete (s : Futures ν) (f : FutureId) (o : Outcome) : Bool × Futures ν :=
  let (next, due) := s.assign f o
  (!s.isComplete f, next.settle due)

def onComplete (s : Futures ν) (f : FutureId) (l : Listener ν) : Futures ν :=
  match s.value? f with
  | some o => s.settle [(l, o)]
  | none => { s with waiting := s.waiting ++ [(f, l)] }

def listenAll (s : Futures ν) (join index : Nat) : List FutureId → Futures ν
  | [] => s
  | f :: rest => (s.onComplete f (.fill join index)).listenAll join (index + 1) rest

/-- The conjunction of futures, in order. That of none is empty, that of one is the future. -/
def all (s : Futures ν) (fs : List FutureId) : FutureId × Futures ν :=
  match fs with
  | [] => s.completed .empty
  | [f] => (f, s)
  | _ =>
    let (into, s) := s.pending
    let join := s.joins.length
    let s := { s with joins := s.joins ++ [Join.mk into (List.replicate fs.length none)] }
    (into, s.listenAll join 0 fs)

def combine (s : Futures ν) (f g : FutureId) : FutureId × Futures ν := s.all [f, g]

def takeHeard (s : Futures ν) : List (ν × Outcome) × Futures ν :=
  (s.heard, { s with heard := [] })

end Futures

end Cuescript
