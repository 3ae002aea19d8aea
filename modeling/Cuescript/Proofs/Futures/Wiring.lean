import Cuescript.Futures.Basic

/-!
How futures depend on each other. Each future has a way in which it comes to its outcome, and the
listeners carry outcomes along these ways. Main statement: when all calls that are due have been
made, every future is as its way says, and every listener still waits for a future that has no
outcome yet.
-/
namespace Cuescript

/-- How a future comes to its outcome: it has been given one, a task will complete it, it takes over
that of another future, or it is the result of a join, of whose parts the first are known. -/
inductive Way where
  | given (o : Outcome)
  | task
  | relay (source : FutureId)
  | join (index size : Nat) (parts : List FutureId)

abbrev Wiring := List Way

def Way.sources : Way → List FutureId
  | .given _ => []
  | .task => []
  | .relay h => [h]
  | .join _ _ parts => parts

/-- A listener on the future `h` that the wiring asks for. Notes are of no concern to it, and it has
no room for reactions. -/
def Wiring.Serves {ν : Type} (w : Wiring) (h : FutureId) : Listener ν → Prop
  | .note _ => True
  | .relay g => w[g.number]? = some (.relay h)
  | .fill j k =>
    ∃ g size parts, w[FutureId.number g]? = some (.join j size parts) ∧ parts[k]? = some h
  | .react _ => False

theorem Wiring.Serves.append {ν : Type} {w : Wiring} {h : FutureId} {l : Listener ν}
    (serves : w.Serves h l) (more : Wiring) : Wiring.Serves (w ++ more) h l := by
  have kept : ∀ {n : Nat} {way : Way}, w[n]? = some way → (w ++ more)[n]? = some way :=
    fun found => List.getElem?_append_left (List.getElem?_eq_some_iff.mp found).1 ▸ found
  cases l with
  | note label => exact trivial
  | relay g => exact kept serves
  | fill j k =>
    obtain ⟨g, size, parts, way, part⟩ := serves
    exact ⟨g, size, parts, kept way, part⟩
  | react replies => exact serves

theorem Join.result?_eq_some {g : FutureId} {places : List (Option Outcome)} {o : Outcome}
    (is : (Join.mk g places).result? = some o) : ∀ place ∈ places, place.isSome = true := by
  rw [Join.result?] at is
  split at is
  · rename_i full
    simpa using full
  · cases is

theorem Join.result?_map_some (os : List Outcome) (g : FutureId) :
    (Join.mk g (os.map some)).result? = some (Outcome.all os) := by
  simp [Join.result?]

theorem Join.result?_eq_some_iff {g : FutureId} {places : List (Option Outcome)} {o : Outcome} :
    (Join.mk g places).result? = some o ↔ ∃ os, places = os.map some ∧ o = Outcome.all os := by
  constructor
  · intro is
    have full := Join.result?_eq_some is
    have known : (places.filterMap id).map some = places := by
      rw [List.map_filterMap_some_eq_filter_map_isSome, List.map_id, List.filter_eq_self.mpr full]
    rw [← known, Join.result?_map_some] at is
    exact ⟨_, known.symm, (Option.some.inj is).symm⟩
  · rintro ⟨os, rfl, rfl⟩
    exact Join.result?_map_some os g

theorem Join.result?_set {g : FutureId} {places : List (Option Outcome)} {k : Nat} {o : Outcome}
    (is : (Join.mk g (places.set k (some o))).result? = none) :
    (Join.mk g places).result? = none := by
  cases before : (Join.mk g places).result? with
  | none => rfl
  | some result =>
    have full := Join.result?_eq_some before
    have all : (places.set k (some o)).all Option.isSome = true := by
      rw [List.all_eq_true]
      intro place member
      rcases List.mem_or_eq_of_mem_set member with member | rfl
      · exact full place member
      · rfl
    rw [Join.result?, if_pos all] at is
    cases is

namespace Futures

variable {ν : Type} {s : Futures ν} {due rest : List (Call ν)} {g h : FutureId} {o : Outcome}
  {l : Listener ν} {arrived : Option Outcome} {way : Way}

/-- The outcome of a future has arrived where its listener carries it: it has none yet and the
listener waits, or it has one that has arrived, or that is about to be carried over. -/
def Carried (s : Futures ν) (due : List (Call ν)) (h : FutureId) (l : Listener ν)
    (arrived : Option Outcome) : Prop :=
  match s.value? h with
  | none => arrived = none ∧ (h, l) ∈ s.waiting
  | some o => arrived = some o ∨ arrived = none ∧ (l, o) ∈ due

/-- The places of a join hold what its known parts have brought, and nothing for the other parts. -/
structure Places (s : Futures ν) (due : List (Call ν)) (j : Nat) (g : FutureId) (size : Nat)
    (parts : List FutureId) (places : List (Option Outcome)) : Prop where
  join : s.joins[j]? = some ⟨g, places⟩
  length : places.length = size
  arrived : ∀ k h place, parts[k]? = some h → places[k]? = some place →
    s.Carried due h (.fill j k) place
  empty : ∀ k place, parts.length ≤ k → places[k]? = some place → place = none

def Follows (s : Futures ν) (due : List (Call ν)) (g : FutureId) : Way → Prop
  | .given o => s.value? g = some o
  | .task => s.value? g = none
  | .relay h => s.Carried due h (.relay g) (s.value? g)
  | .join j size parts => ∃ places, s.Places due j g size parts places ∧
      s.value? g = (Join.mk g places).result?

/-- The futures in `on` are as the wiring says, and all listeners are those it asks for. -/
structure WiredOn (s : Futures ν) (w : Wiring) (due : List (Call ν)) (on : FutureId → Prop) :
    Prop where
  size : w.length = s.values.length
  follows : ∀ g way, on g → w[FutureId.number g]? = some way → s.Follows due g way
  sources : ∀ (n : Nat) way, w[n]? = some way → ∀ h ∈ Way.sources way, h.number < w.length
  waiting : ∀ h l, (h, l) ∈ s.waiting → h.number < w.length ∧ s.value? h = none ∧ w.Serves h l
  due : ∀ l o, (l, o) ∈ due → ∃ h, s.value? h = some o ∧ w.Serves h l

abbrev Wired (s : Futures ν) (w : Wiring) (due : List (Call ν)) : Prop :=
  s.WiredOn w due fun _ => True

variable {w : Wiring} {on : FutureId → Prop}

theorem WiredOn.mono {on' : FutureId → Prop} (wired : s.WiredOn w due on)
    (fewer : ∀ g, on' g → on g) : s.WiredOn w due on' :=
  { wired with follows := fun g way within => wired.follows g way (fewer g within) }

/-! A call that is due is made: the future it completes is as its way says from then on. -/

theorem Carried.skip {c : Call ν} (carried : s.Carried (c :: rest) h l arrived) (other : l ≠ c.1) :
    s.Carried rest h l arrived := by
  rw [Carried] at carried ⊢
  split
  · rename_i none
    rw [none] at carried
    exact carried
  · rename_i o some
    rw [some] at carried
    rcases carried with here | ⟨none, coming⟩
    · exact .inl here
    · rcases List.mem_cons.mp coming with same | coming
      · exact absurd (congrArg Prod.fst same) other
      · exact .inr ⟨none, coming⟩

theorem Carried.here (value : s.value? h = some o) : s.Carried due h l (some o) := by
  rw [Carried, value]
  exact .inl rfl

theorem Carried.eq_of_some {x : Outcome} (carried : s.Carried due h l (some x))
    (value : s.value? h = some o) : x = o := by
  rw [Carried, value] at carried
  rcases carried with here | ⟨none, _⟩
  · exact Option.some.inj here
  · cases none

/-- Only values, waiting listeners and due calls matter for what is carried. -/
theorem Carried.congr {s' : Futures ν} {due' : List (Call ν)} (carried : s.Carried due h l arrived)
    (value : s'.value? h = s.value? h) (waiting : (h, l) ∈ s.waiting → (h, l) ∈ s'.waiting)
    (coming : ∀ o, (l, o) ∈ due → (l, o) ∈ due') : s'.Carried due' h l arrived := by
  rw [Carried, value]
  rw [Carried] at carried
  split
  · rename_i none
    rw [none] at carried
    exact ⟨carried.1, waiting carried.2⟩
  · rename_i o some
    rw [some] at carried
    exact carried.imp_right fun later => ⟨later.1, coming o later.2⟩

theorem Follows.congr {s' : Futures ν} {due' : List (Call ν)} (follows : s.Follows due g way)
    (value : s'.value? g = s.value? g) (sources : ∀ h ∈ way.sources, s'.value? h = s.value? h)
    (waiting : ∀ e ∈ s.waiting, e ∈ s'.waiting) (coming : ∀ c ∈ due, c ∈ due')
    (joins : ∀ (j : Nat) J, s.joins[j]? = some J → s'.joins[j]? = some J) :
    s'.Follows due' g way := by
  cases way with
  | given o => exact value.trans follows
  | task => exact value.trans follows
  | relay h =>
    rw [Follows, value]
    exact Carried.congr follows (sources h (List.mem_singleton_self h)) (waiting _) fun _ => coming _
  | join j size parts =>
    obtain ⟨places, filled, result⟩ := follows
    refine ⟨places, { filled with join := joins _ _ filled.join, arrived := ?_ }, value.trans result⟩
    intro k h place part here
    have known := sources h (List.mem_of_getElem? part)
    exact (filled.arrived k h place part here).congr known (waiting _) fun _ => coming _

theorem assign_complete (complete : s.value? g = some o) (o' : Outcome) :
    s.assign g o' = (s, []) := by
  rw [assign, if_pos]
  rw [isComplete, complete]
  rfl

theorem assign_pending (pending : s.value? g = none) (o : Outcome) :
    s.assign g o =
      ({ s with
          values := s.values.set g.number (some o)
          waiting := s.waiting.filter fun l => l.1 ≠ g },
        (s.waiting.filter fun l => l.1 = g).map fun l => (l.2, o)) := by
  rw [assign, if_neg]
  rw [isComplete, pending]
  exact Bool.false_ne_true

theorem value?_assign (pending : s.value? g = none) (inside : g.number < s.values.length)
    (o : Outcome) (h : FutureId) :
    (s.assign g o).1.value? h = if h = g then some o else s.value? h := by
  rw [assign_pending pending, value?, value?]
  by_cases same : h = g
  · rw [if_pos same, same]
    simp [inside]
  · have apart : g.number ≠ h.number := fun number => same (congrArg FutureId.mk number.symm)
    rw [if_neg same]
    simp [List.getElem?_set_ne apart]

theorem Carried.assign (carried : s.Carried due h l arrived) (pending : s.value? g = none)
    (inside : g.number < s.values.length) (o : Outcome) :
    (s.assign g o).1.Carried ((s.assign g o).2 ++ due) h l arrived := by
  have value := value?_assign pending inside o h
  by_cases same : h = g
  · -- The listener waited for `g`, and is called now.
    subst same
    rw [if_pos rfl] at value
    rw [Carried, pending] at carried
    obtain ⟨none, waits⟩ := carried
    rw [Carried, value]
    refine .inr ⟨none, List.mem_append_left _ ?_⟩
    rw [assign_pending pending]
    exact List.mem_map.mpr ⟨(h, l), List.mem_filter.mpr ⟨waits, by simp⟩, rfl⟩
  · rw [if_neg same] at value
    refine carried.congr value (fun waits => ?_) fun o' coming => List.mem_append_right _ coming
    rw [assign_pending pending]
    exact List.mem_filter.mpr ⟨waits, by simpa using same⟩

theorem Places.assign {j size : Nat} {f : FutureId} {parts : List FutureId}
    {places : List (Option Outcome)} (filled : s.Places due j f size parts places)
    (pending : s.value? g = none) (inside : g.number < s.values.length) (o : Outcome) :
    (s.assign g o).1.Places ((s.assign g o).2 ++ due) j f size parts places where
  join := by
    rw [assign_pending pending]
    exact filled.join
  length := filled.length
  arrived k h place part here := (filled.arrived k h place part here).assign pending inside o
  empty := filled.empty

theorem Follows.assign (follows : s.Follows due h way) (apart : h ≠ g)
    (pending : s.value? g = none) (inside : g.number < s.values.length) (o : Outcome) :
    (s.assign g o).1.Follows ((s.assign g o).2 ++ due) h way := by
  have value := value?_assign pending inside o h
  rw [if_neg apart] at value
  cases way with
  | given o' => exact value.trans follows
  | task => exact value.trans follows
  | relay source =>
    rw [Follows, value]
    exact Carried.assign follows pending inside o
  | join j size parts =>
    obtain ⟨places, filled, result⟩ := follows
    exact ⟨places, filled.assign pending inside o, value.trans result⟩

theorem WiredOn.assign (wired : s.WiredOn w due (· ≠ g)) (pending : s.value? g = none)
    (inside : g.number < s.values.length) (o : Outcome)
    (own : ∀ way, w[g.number]? = some way →
      (s.assign g o).1.Follows ((s.assign g o).2 ++ due) g way) :
    (s.assign g o).1.Wired w ((s.assign g o).2 ++ due) := by
  have value := value?_assign pending inside o
  refine ⟨?_, ?_, wired.sources, ?_, ?_⟩
  · rw [assign_pending pending]
    exact wired.size.trans (List.length_set ..).symm
  · intro h way _ is
    by_cases same : h = g
    · subst same
      exact own way is
    · exact (wired.follows h way same is).assign same pending inside o
  · intro h l waits
    rw [assign_pending pending] at waits
    obtain ⟨before, apart⟩ := List.mem_filter.mp waits
    have apart : h ≠ g := by simpa using apart
    obtain ⟨known, none, serves⟩ := wired.waiting h l before
    refine ⟨known, ?_, serves⟩
    rw [value, if_neg apart, none]
  · intro l o' coming
    rcases List.mem_append.mp coming with called | coming
    · rw [assign_pending pending] at called
      obtain ⟨⟨source, listener⟩, waits, same⟩ := List.mem_map.mp called
      obtain ⟨rfl, rfl⟩ := Prod.mk.inj same
      obtain ⟨before, own⟩ := List.mem_filter.mp waits
      obtain rfl : source = g := by simpa using own
      refine ⟨source, ?_, (wired.waiting _ _ before).2.2⟩
      rw [value, if_pos rfl]
    · obtain ⟨source, some, serves⟩ := wired.due l o' coming
      refine ⟨source, ?_, serves⟩
      rw [value, if_neg, some]
      rintro rfl
      rw [pending] at some
      cases some

theorem Places.skip {j size : Nat} {parts : List FutureId} {places : List (Option Outcome)}
    {c : Call ν} (filled : s.Places (c :: rest) j g size parts places)
    (other : ∀ k, c.1 ≠ .fill j k) : s.Places rest j g size parts places :=
  { filled with
    arrived := fun k h place part here =>
      (filled.arrived k h place part here).skip (other k).symm }

theorem Follows.skip {c : Call ν} (follows : s.Follows (c :: rest) g way) (relay : c.1 ≠ .relay g)
    (fill : ∀ j size parts k, way = .join j size parts → c.1 ≠ .fill j k) :
    s.Follows rest g way := by
  cases way with
  | given o => exact follows
  | task => exact follows
  | relay h => exact Carried.skip follows relay.symm
  | join j size parts =>
    obtain ⟨places, filled, result⟩ := follows
    exact ⟨places, filled.skip fun k => fill j size parts k rfl, result⟩

theorem Places.put {j k size : Nat} {parts : List FutureId} {places : List (Option Outcome)}
    (filled : s.Places ((.fill j k, o) :: rest) j g size parts places) (part : parts[k]? = some h)
    (value : s.value? h = some o) :
    Places { s with joins := s.joins.set j ⟨g, places.set k (some o)⟩ } rest j g size parts
      (places.set k (some o)) where
  join := List.getElem?_set_self (List.getElem?_eq_some_iff.mp filled.join).1
  length := by rw [List.length_set, filled.length]
  arrived k' h' place part' here := by
    by_cases own : k' = k
    · subst own
      obtain rfl := Option.some.inj (part.symm.trans part')
      have inside : k' < places.length := by
        have bound := (List.getElem?_eq_some_iff.mp here).1
        rwa [List.length_set] at bound
      rw [List.getElem?_set_self inside] at here
      obtain rfl := Option.some.inj here
      exact Carried.here value
    · rw [List.getElem?_set_ne (Ne.symm own)] at here
      refine (filled.arrived k' h' place part' here).skip ?_
      rintro ⟨⟩
      exact own rfl
  empty k' place beyond here := by
    have known := (List.getElem?_eq_some_iff.mp part).1
    rw [List.getElem?_set_ne (show k ≠ k' by omega)] at here
    exact filled.empty k' place beyond here

theorem Places.put_full {j k size : Nat} {parts : List FutureId} {places : List (Option Outcome)}
    (filled : s.Places due j g size parts places) (part : parts[k]? = some h)
    (value : s.value? h = some o) (full : ∀ place ∈ places, place.isSome = true) :
    places.set k (some o) = places := by
  apply List.ext_getElem?
  intro k'
  by_cases own : k = k'
  · subst own
    rw [List.getElem?_set_self']
    cases here : places[k]? with
    | none => rfl
    | some place =>
      have carried := filled.arrived k h place part here
      cases place with
      | none => cases full none (List.mem_of_getElem? here)
      | some x =>
        obtain rfl := carried.eq_of_some value
        rfl
  · rw [List.getElem?_set_ne own]

theorem WiredOn.tail {c : Call ν} (wired : s.WiredOn w (c :: rest) on)
    (follows : ∀ g way, on g → w[FutureId.number g]? = some way → s.Follows rest g way) :
    s.WiredOn w rest on :=
  ⟨wired.size, follows, wired.sources, wired.waiting,
    fun l o coming => wired.due l o (List.mem_cons_of_mem _ coming)⟩

theorem WiredOn.inside (wired : s.WiredOn w due on) {n : Nat} {way : Way} (is : w[n]? = some way) :
    n < s.values.length := by
  rw [← wired.size]
  exact (List.getElem?_eq_some_iff.mp is).1

/-- With one future more as its way says, all are. -/
theorem WiredOn.complete (wired : s.WiredOn w due (· ≠ g)) (is : w[g.number]? = some way)
    (own : s.Follows due g way) : s.Wired w due := by
  refine { wired with follows := fun h way' _ is' => ?_ }
  by_cases same : h = g
  · subst same
    obtain rfl := Option.some.inj (is.symm.trans is')
    exact own
  · exact wired.follows h way' same is'

theorem Wired.relay_call (wired : s.Wired w ((.relay g, o) :: rest)) :
    (s.assign g o).1.Wired w ((s.assign g o).2 ++ rest) := by
  obtain ⟨h, value, way⟩ := wired.due _ _ List.mem_cons_self
  have others : s.WiredOn w rest (· ≠ g) := by
    apply (wired.mono fun _ _ => trivial).tail
    intro g' way' apart is
    apply (wired.follows g' way' trivial is).skip
    · rintro ⟨⟩
      exact apart rfl
    · exact nofun
  cases before : s.value? g with
  | none =>
    have inside := wired.inside way
    refine others.assign before inside o fun way' is => ?_
    obtain rfl := Option.some.inj (way.symm.trans is)
    have apart : h ≠ g := by
      rintro rfl
      rw [before] at value
      cases value
    rw [Follows, value?_assign before inside, if_pos rfl]
    apply Carried.here
    rw [value?_assign before inside, if_neg apart, value]
  | some x =>
    have carried : s.Carried _ h (.relay g) (s.value? g) := wired.follows g _ trivial way
    rw [before] at carried
    obtain rfl := carried.eq_of_some value
    rw [assign_complete before]
    apply others.complete way
    rw [Follows, before]
    exact Carried.here value

theorem WiredOn.set_join {j : Nat} {places : List (Option Outcome)} (wired : s.WiredOn w due (· ≠ g))
    (join : s.joins[j]? = some ⟨g, places⟩) (places' : List (Option Outcome)) :
    WiredOn { s with joins := s.joins.set j ⟨g, places'⟩ } w due (· ≠ g) := by
  refine ⟨wired.size, fun g' way' apart is => ?_, wired.sources, wired.waiting, wired.due⟩
  have follows := wired.follows g' way' apart is
  cases way' with
  | given o => exact follows
  | task => exact follows
  | relay h => exact follows
  | join j' size parts =>
    obtain ⟨other, filled, result⟩ := follows
    have elsewhere : j ≠ j' := by
      rintro rfl
      have same := Option.some.inj (filled.join.symm.trans join)
      exact apart (Join.mk.inj same).1
    refine ⟨other, { filled with join := ?_ }, result⟩
    rw [List.getElem?_set_ne elsewhere]
    exact filled.join

theorem Wired.fill_call {j k : Nat} (wired : s.Wired w ((.fill j k, o) :: rest)) :
    (s.fill j k o).1.Wired w ((s.fill j k o).2 ++ rest) := by
  obtain ⟨h, value, g, size, parts, way, part⟩ := wired.due _ _ List.mem_cons_self
  obtain ⟨places, filled, result⟩ := wired.follows g _ trivial way
  have others : s.WiredOn w rest (· ≠ g) := by
    apply (wired.mono fun _ _ => trivial).tail
    intro g' way' apart is
    apply (wired.follows g' way' trivial is).skip
    · exact nofun
    · rintro j' size' parts' k' rfl ⟨⟩
      obtain ⟨_, filled', _⟩ := wired.follows g' _ trivial is
      have same := Option.some.inj (filled'.join.symm.trans filled.join)
      exact apart (Join.mk.inj same).1
  have others := others.set_join filled.join (places.set k (some o))
  have put := filled.put part value
  have result : Futures.value? { s with joins := s.joins.set j ⟨g, places.set k (some o)⟩ } g =
      (Join.mk g places).result? := result
  rw [fill, filled.join]
  dsimp only
  generalize Futures.mk s.values (s.joins.set j ⟨g, places.set k (some o)⟩) s.waiting s.heard = s'
    at others put result
  split
  · rename_i total full
    have inside := others.inside way
    cases before : s'.value? g with
    | none =>
      refine others.assign before inside total fun way' is => ?_
      obtain rfl := Option.some.inj (way.symm.trans is)
      refine ⟨_, put.assign before inside total, ?_⟩
      rw [value?_assign before inside, if_pos rfl, full]
    | some x =>
      -- The join was full before, so nothing changes.
      rw [before] at result
      have same := filled.put_full part value (Join.result?_eq_some result.symm)
      rw [assign_complete before]
      apply others.complete way
      refine ⟨_, put, ?_⟩
      rw [same]
      exact before.trans result
  · rename_i still
    apply others.complete way
    exact ⟨_, put, result.trans ((Join.result?_set still).trans still.symm)⟩

theorem Wired.call {c : Call ν} (wired : s.Wired w (c :: rest)) :
    (s.call c).1.Wired w ((s.call c).2 ++ rest) := by
  obtain ⟨l, o⟩ := c
  cases l with
  | note label =>
    have quiet : s.Wired w rest :=
      wired.tail fun g way _ is => (wired.follows g way trivial is).skip nofun nofun
    refine ⟨quiet.size, fun g way on is => ?_, quiet.sources, quiet.waiting, quiet.due⟩
    exact Follows.congr (quiet.follows g way on is) rfl (fun _ _ => rfl) (fun _ => id)
      (fun _ => id) fun _ _ => id
  | relay g => exact wired.relay_call
  | fill j k => exact wired.fill_call
  | react replies =>
    obtain ⟨_, _, none⟩ := wired.due _ _ List.mem_cons_self
    exact none.elim

theorem Wired.settle (wired : s.Wired w due) : (s.settle due).Wired w [] := by
  induction s, due using Futures.settle.induct with
  | case1 s =>
    rw [Futures.settle]
    exact wired
  | case2 s c rest next ih =>
    rw [Futures.settle]
    exact ih wired.call

end Futures

end Cuescript
