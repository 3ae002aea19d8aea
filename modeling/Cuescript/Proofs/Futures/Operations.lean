import Cuescript.Proofs.Futures.Growth

/-!
What a caller can do with futures, and the runs that are made of it. A caller names futures that it
has been given; its listeners may note the outcome, pass it on, or answer it by completing whatever
futures they know. Main statements: in such a run only futures that exist are ever completed, every
listener waits for a future without an outcome, and a call completes at most one future.
-/
namespace Cuescript

def Listener.targets {ν : Type} : Listener ν → List FutureId
  | .note _ => []
  | .relay next => [next]
  | .fill _ _ => []
  | .react replies => replies.map Prod.fst

def Listener.isFill {ν : Type} : Listener ν → Bool
  | .fill _ _ => true
  | _ => false

namespace Futures

variable {ν : Type} {s s' : Futures ν} {due rest : List (Call ν)} {f g : FutureId} {o : Outcome}
  {l : Listener ν}

/-- A call of a future. A clone is one more name for the same future. -/
inductive Operation (ν : Type) where
  | pending
  | completed (o : Outcome)
  | clone (f : FutureId)
  | all (fs : List FutureId)
  | combine (f g : FutureId)
  | complete (f : FutureId) (o : Outcome)
  | onComplete (f : FutureId) (l : Listener ν)

def perform (s : Futures ν) : Operation ν → Futures ν
  | .pending => s.pending.2
  | .completed o => (s.completed o).2
  | .clone _ => s
  | .all fs => (s.all fs).2
  | .combine f g => (s.combine f g).2
  | .complete f o => (s.complete f o).2
  | .onComplete f l => s.onComplete f l

def play (s : Futures ν) (ops : List (Operation ν)) : Futures ν := ops.foldl perform s

def Knows (s : Futures ν) (f : FutureId) : Prop := f.number < s.values.length

instance (s : Futures ν) (f : FutureId) : Decidable (s.Knows f) :=
  inferInstanceAs (Decidable (_ < _))

/-- An operation names futures that have been made, and registers a listener of the caller's. -/
def Operation.Fits (s : Futures ν) : Operation ν → Prop
  | .pending => True
  | .completed _ => True
  | .clone f => s.Knows f
  | .all fs => ∀ f ∈ fs, s.Knows f
  | .combine f g => s.Knows f ∧ s.Knows g
  | .complete f _ => s.Knows f
  | .onComplete f l => s.Knows f ∧ l.isFill = false ∧ ∀ g ∈ l.targets, s.Knows g

instance (s : Futures ν) (op : Operation ν) : Decidable (op.Fits s) := by
  cases op <;> unfold Operation.Fits <;> infer_instance

def Valid (s : Futures ν) : List (Operation ν) → Prop
  | [] => True
  | op :: rest => op.Fits s ∧ Valid (s.perform op) rest

instance Valid.decidable (s : Futures ν) : (ops : List (Operation ν)) → Decidable (s.Valid ops)
  | [] => isTrue trivial
  | op :: rest =>
    have := Valid.decidable (s.perform op) rest
    inferInstanceAs (Decidable (_ ∧ _))

theorem play_append (s : Futures ν) (ops more : List (Operation ν)) :
    s.play (ops ++ more) = (s.play ops).play more :=
  List.foldl_append

theorem valid_append {ops more : List (Operation ν)} :
    s.Valid (ops ++ more) ↔ s.Valid ops ∧ (s.play ops).Valid more := by
  induction ops generalizing s with
  | nil => exact ⟨fun valid => ⟨trivial, valid⟩, And.right⟩
  | cons op rest ih =>
    rw [List.cons_append, Valid, Valid, ih, and_assoc]
    rfl

/-- What holds of no futures and is kept by every operation that fits holds after a valid run. -/
theorem play_invariant {P : Futures ν → Prop} (keeps : ∀ s op, P s → op.Fits s → P (s.perform op))
    {ops : List (Operation ν)} (start : P s) (valid : s.Valid ops) : P (s.play ops) := by
  induction ops generalizing s with
  | nil => exact start
  | cons op rest ih => exact ih (keeps s op start valid.1) valid.2

/-! A call either completes one future, or none. -/

def target? (s : Futures ν) (c : Call ν) : Option (FutureId × Outcome) :=
  match c.1 with
  | .note _ => none
  | .relay next => some (next, c.2)
  | .fill join index => do
    let j ← s.joins[join]?
    let result ← { j with places := j.places.set index (some c.2) : Join }.result?
    return (j.into, result)
  | .react _ => none

def enter (s : Futures ν) (c : Call ν) : Futures ν :=
  match c.1 with
  | .note label => { s with heard := s.heard ++ [(label, c.2)] }
  | .relay _ => s
  | .fill join index =>
    match s.joins[join]? with
    | none => s
    | some j =>
      { s with joins := s.joins.set join { j with places := j.places.set index (some c.2) } }
  | .react _ => s

def replies (c : Call ν) : List (Call ν) :=
  match c.1 with
  | .react replies => replies.filterMap fun r => (r.2 c.2).map fun o => (.relay r.1, o)
  | _ => []

theorem call_eq (s : Futures ν) (c : Call ν) :
    s.call c = match s.target? c with
      | some (g, o) => (s.enter c).assign g o
      | none => (s.enter c, replies c) := by
  obtain ⟨l, o⟩ := c
  cases l with
  | note label => rfl
  | relay next => rfl
  | react rs => rfl
  | fill join index =>
    cases found : s.joins[join]? with
    | none => simp [call, fill, target?, replies, enter, found]
    | some j =>
      cases result : ({ j with places := j.places.set index (some o) : Join }).result? <;>
        simp [call, fill, target?, replies, enter, found, result]

@[simp] theorem enter_values (s : Futures ν) (c : Call ν) : (s.enter c).values = s.values := by
  unfold enter
  split <;> try rfl
  split <;> rfl

@[simp] theorem enter_waiting (s : Futures ν) (c : Call ν) : (s.enter c).waiting = s.waiting := by
  unfold enter
  split <;> try rfl
  split <;> rfl

@[simp] theorem enter_value? (s : Futures ν) (c : Call ν) (f : FutureId) :
    (s.enter c).value? f = s.value? f := by
  rw [value?, value?, enter_values]

theorem enter_joins (s : Futures ν) (c : Call ν) :
    (s.enter c).joins.map Join.into = s.joins.map Join.into := by
  obtain ⟨l, o⟩ := c
  cases l with
  | note | relay | react => rfl
  | fill join index =>
    cases found : s.joins[join]? with
    | none => simp [enter, found]
    | some j =>
      have same : (s.joins.map Join.into)[join]? = some j.into := by simp [found]
      obtain ⟨inside, into⟩ := List.getElem?_eq_some_iff.mp same
      simp only [enter, found, List.map_set, ← into]
      exact List.set_getElem_self inside

/-! Futures stay, and keep their outcomes. -/

structure Keeps (s s' : Futures ν) : Prop where
  size : s.values.length ≤ s'.values.length
  joins : s.joins.length ≤ s'.joins.length
  values : ∀ f o, s.value? f = some o → s'.value? f = some o

theorem Keeps.refl (s : Futures ν) : s.Keeps s := ⟨Nat.le_refl _, Nat.le_refl _, fun _ _ => id⟩

theorem Keeps.trans {s'' : Futures ν} (first : s.Keeps s') (second : s'.Keeps s'') :
    s.Keeps s'' :=
  ⟨Nat.le_trans first.size second.size, Nat.le_trans first.joins second.joins,
    fun f o is => second.values f o (first.values f o is)⟩

theorem Keeps.knows (keeps : s.Keeps s') (known : s.Knows f) : s'.Knows f :=
  Nat.lt_of_lt_of_le known keeps.size

theorem keeps_assign (s : Futures ν) (g : FutureId) (o : Outcome) : s.Keeps (s.assign g o).1 := by
  cases before : s.value? g with
  | some x =>
    rw [assign_complete before]
    exact .refl s
  | none =>
    refine ⟨?_, ?_, fun f x is => ?_⟩
    · rw [assign_pending before]
      exact Nat.le_of_eq (List.length_set ..).symm
    · simp only [assign_pending before, Nat.le_refl]
    · have apart : g.number ≠ f.number := by
        intro same
        obtain rfl : g = f := congrArg FutureId.mk same
        rw [before] at is
        cases is
      rw [assign_pending before, value?, List.getElem?_set_ne apart]
      exact is

theorem keeps_enter (s : Futures ν) (c : Call ν) : s.Keeps (s.enter c) := by
  refine ⟨Nat.le_of_eq (congrArg List.length (enter_values s c).symm), Nat.le_of_eq ?_,
    fun f _ is => (enter_value? s c f).trans is⟩
  have same := congrArg List.length (enter_joins s c)
  rw [List.length_map, List.length_map] at same
  exact same.symm

theorem keeps_call (s : Futures ν) (c : Call ν) : s.Keeps (s.call c).1 := by
  rw [call_eq]
  split
  · exact (keeps_enter s c).trans (keeps_assign ..)
  · exact keeps_enter s c

theorem keeps_settle (s : Futures ν) (due : List (Call ν)) : s.Keeps (s.settle due) := by
  induction s, due using Futures.settle.induct with
  | case1 s =>
    rw [Futures.settle]
    exact .refl s
  | case2 s c rest next ih =>
    rw [Futures.settle]
    exact (keeps_call s c).trans ih

theorem value?_eq_none_of_not_knows (unknown : ¬ s.Knows f) : s.value? f = none := by
  rw [value?, List.getElem?_eq_none (Nat.le_of_not_lt unknown)]
  rfl

theorem keeps_append (s : Futures ν) (v : Option Outcome) (joins : List Join) :
    s.Keeps { s with values := s.values ++ [v], joins := s.joins ++ joins } := by
  refine ⟨?_, ?_, fun f o is => ?_⟩
  · rw [List.length_append]
    exact Nat.le_add_right _ _
  · rw [List.length_append]
    exact Nat.le_add_right _ _
  · rw [value?_append, if_neg, is]
    intro beyond
    rw [value?_eq_none_of_not_knows (Nat.not_lt_of_le (Nat.le_of_eq beyond.symm))] at is
    cases is

theorem keeps_onComplete (s : Futures ν) (f : FutureId) (l : Listener ν) :
    s.Keeps (s.onComplete f l) := by
  rw [onComplete]
  split
  · exact keeps_settle ..
  · exact ⟨Nat.le_refl _, Nat.le_refl _, fun _ _ => id⟩

theorem keeps_listenAll (s : Futures ν) (j k : Nat) (fs : List FutureId) :
    s.Keeps (s.listenAll j k fs) := by
  induction fs generalizing s k with
  | nil => exact .refl s
  | cons f rest ih => exact (keeps_onComplete s f _).trans (ih ..)

theorem keeps_pending (s : Futures ν) : s.Keeps s.pending.2 := by
  have keeps := keeps_append s none []
  rw [List.append_nil] at keeps
  exact keeps

theorem keeps_completed (s : Futures ν) (o : Outcome) : s.Keeps (s.completed o).2 := by
  have keeps := keeps_append s (some o) []
  rw [List.append_nil] at keeps
  exact keeps

theorem keeps_all (s : Futures ν) (fs : List FutureId) : s.Keeps (s.all fs).2 := by
  match fs with
  | [] => exact keeps_completed s .empty
  | [f] => exact .refl s
  | f :: g :: rest => exact (keeps_append s none _).trans (keeps_listenAll ..)

theorem keeps_perform (s : Futures ν) (op : Operation ν) : s.Keeps (s.perform op) := by
  cases op with
  | pending => exact keeps_pending s
  | completed o => exact keeps_completed s o
  | clone f => exact .refl s
  | all fs => exact keeps_all s fs
  | combine f g => exact keeps_all s [f, g]
  | complete f o => exact (keeps_assign s f o).trans (keeps_settle ..)
  | onComplete f l => exact keeps_onComplete s f l

theorem keeps_play (s : Futures ν) (ops : List (Operation ν)) : s.Keeps (s.play ops) := by
  induction ops generalizing s with
  | nil => exact .refl s
  | cons op rest ih => exact (keeps_perform s op).trans (ih _)

/-! Only futures that have been made are ever completed. -/

/-- A listener completes futures, and fills places of joins, that have been made. -/
structure Admits (s : Futures ν) (l : Listener ν) : Prop where
  targets : ∀ g ∈ l.targets, s.Knows g
  join : ∀ j k, l = .fill j k → j < s.joins.length

theorem Keeps.admits (keeps : s.Keeps s') (admits : s.Admits l) : s'.Admits l :=
  ⟨fun g target => keeps.knows (admits.targets g target),
    fun j k fill => Nat.lt_of_lt_of_le (admits.join j k fill) keeps.joins⟩

theorem admits_of_caller (caller : l.isFill = false) (known : ∀ g ∈ l.targets, s.Knows g) :
    s.Admits l := by
  refine ⟨known, ?_⟩
  rintro j k rfl
  cases caller

/-- Listeners wait for futures that have no outcome yet, and all futures that are going to be
completed have been made. -/
structure Closed (s : Futures ν) (due : List (Call ν)) : Prop where
  waiting : ∀ f l, (f, l) ∈ s.waiting → s.Knows f ∧ s.value? f = none ∧ s.Admits l
  due : ∀ l o, (l, o) ∈ due → s.Admits l
  joins : ∀ g ∈ s.joins.map Join.into, s.Knows g

theorem closed_empty : (empty : Futures ν).Closed [] :=
  ⟨nofun, nofun, List.forall_mem_nil _⟩

theorem Closed.assign (closed : s.Closed due) (known : s.Knows g) (o : Outcome) :
    (s.assign g o).1.Closed ((s.assign g o).2 ++ due) := by
  cases before : s.value? g with
  | some x =>
    rw [assign_complete before]
    exact closed
  | none =>
    have keeps := keeps_assign s g o
    refine ⟨fun f l waits => ?_, fun l x coming => ?_, fun f into => ?_⟩
    · rw [value?_assign before known]
      rw [assign_pending before] at waits
      obtain ⟨waits, apart⟩ := List.mem_filter.mp waits
      have apart : f ≠ g := by simpa using apart
      obtain ⟨inside, none, admits⟩ := closed.waiting f l waits
      exact ⟨keeps.knows inside, (if_neg apart).trans none, keeps.admits admits⟩
    · apply keeps.admits
      rcases List.mem_append.mp coming with called | coming
      · rw [assign_pending before] at called
        obtain ⟨⟨f, l'⟩, waits, same⟩ := List.mem_map.mp called
        obtain ⟨rfl, -⟩ := Prod.mk.inj same
        exact (closed.waiting f _ (List.mem_filter.mp waits).1).2.2
      · exact closed.due l x coming
    · rw [assign_pending before] at into
      exact keeps.knows (closed.joins f into)

theorem Closed.enter {c : Call ν} (closed : s.Closed (c :: rest)) : (s.enter c).Closed rest := by
  have keeps := keeps_enter s c
  refine ⟨fun f l waits => ?_, fun l o coming => ?_, fun f into => ?_⟩
  · rw [enter_waiting] at waits
    obtain ⟨inside, none, admits⟩ := closed.waiting f l waits
    exact ⟨keeps.knows inside, (enter_value? s c f).trans none, keeps.admits admits⟩
  · exact keeps.admits (closed.due l o (List.mem_cons_of_mem _ coming))
  · rw [enter_joins] at into
    exact keeps.knows (closed.joins f into)

theorem Closed.target {c : Call ν} (closed : s.Closed (c :: rest))
    (is : s.target? c = some (g, o)) : s.Knows g := by
  obtain ⟨l, x⟩ := c
  cases l with
  | note label => cases is
  | relay next =>
    obtain ⟨rfl, -⟩ := Prod.mk.inj (Option.some.inj is)
    exact (closed.due _ _ List.mem_cons_self).targets _ (List.mem_singleton_self _)
  | fill join index =>
    simp only [target?, Option.bind_eq_bind, Option.bind_eq_some_iff, Option.pure_def,
      Option.some.injEq, Prod.mk.injEq] at is
    obtain ⟨j, found, _, _, rfl, -⟩ := is
    exact closed.joins _ (List.mem_map_of_mem (List.mem_of_getElem? found))
  | react rs => cases is

theorem relay_of_reply {c : Call ν} (reply : (l, o) ∈ replies c) :
    ∃ g ∈ c.1.targets, l = .relay g := by
  obtain ⟨l', x⟩ := c
  cases l' with
  | react rs =>
    obtain ⟨r, member, made⟩ := List.mem_filterMap.mp reply
    obtain ⟨o', _, same⟩ := Option.map_eq_some_iff.mp made
    obtain ⟨rfl, -⟩ := Prod.mk.inj same
    exact ⟨r.1, List.mem_map_of_mem member, rfl⟩
  | note | relay | fill => cases reply

theorem Closed.reply {c : Call ν} (closed : s.Closed (c :: rest)) :
    (s.enter c).Closed (replies c ++ rest) := by
  refine { closed.enter with due := fun l o coming => ?_ }
  rcases List.mem_append.mp coming with reply | coming
  · obtain ⟨g, target, rfl⟩ := relay_of_reply reply
    refine (keeps_enter s c).admits ⟨fun g' own => ?_, nofun⟩
    obtain rfl := List.mem_singleton.mp own
    exact (closed.due _ _ List.mem_cons_self).targets _ target
  · exact closed.enter.due l o coming

theorem Closed.call {c : Call ν} (closed : s.Closed (c :: rest)) :
    (s.call c).1.Closed ((s.call c).2 ++ rest) := by
  rw [call_eq]
  split
  · rename_i g o is
    exact closed.enter.assign ((keeps_enter s c).knows (closed.target is)) o
  · exact closed.reply

theorem Closed.settle (closed : s.Closed due) : (s.settle due).Closed [] := by
  induction s, due using Futures.settle.induct with
  | case1 s =>
    rw [Futures.settle]
    exact closed
  | case2 s c rest next ih =>
    rw [Futures.settle]
    exact ih closed.call

theorem Closed.append (closed : s.Closed []) (v : Option Outcome) {joins : List Join}
    (into : ∀ j ∈ joins, j.into = ⟨s.values.length⟩) :
    Closed { s with values := s.values ++ [v], joins := s.joins ++ joins } [] := by
  have keeps := keeps_append s v joins
  refine ⟨fun f l waits => ?_, nofun, fun f is => ?_⟩
  · obtain ⟨inside, none, admits⟩ := closed.waiting f l waits
    refine ⟨keeps.knows inside, ?_, keeps.admits admits⟩
    rw [value?_append, if_neg (Nat.ne_of_lt inside), none]
  · rw [List.map_append, List.mem_append] at is
    rcases is with before | new
    · exact keeps.knows (closed.joins f before)
    · obtain ⟨j, member, rfl⟩ := List.mem_map.mp new
      rw [into j member, Knows, List.length_append]
      exact Nat.lt_succ_self _

theorem Closed.pending (closed : s.Closed []) : s.pending.2.Closed [] := by
  have added := closed.append none (List.forall_mem_nil _)
  rw [List.append_nil] at added
  exact added

theorem Closed.completed (closed : s.Closed []) (o : Outcome) : (s.completed o).2.Closed [] := by
  have added := closed.append (some o) (List.forall_mem_nil _)
  rw [List.append_nil] at added
  exact added

theorem Closed.onComplete (closed : s.Closed []) (known : s.Knows f) (admits : s.Admits l) :
    (s.onComplete f l).Closed [] := by
  rw [Futures.onComplete]
  split
  · refine Closed.settle { closed with due := fun l' o coming => ?_ }
    obtain ⟨rfl, -⟩ := Prod.mk.inj (List.mem_singleton.mp coming)
    exact admits
  · rename_i none
    have keeps : s.Keeps { s with waiting := s.waiting ++ [(f, l)] } :=
      ⟨Nat.le_refl _, Nat.le_refl _, fun _ _ => id⟩
    refine ⟨fun f' l' waits => ?_, fun l' o coming => keeps.admits (closed.due l' o coming),
      closed.joins⟩
    rcases List.mem_append.mp waits with before | last
    · obtain ⟨inside, none, admits⟩ := closed.waiting f' l' before
      exact ⟨inside, none, keeps.admits admits⟩
    · obtain ⟨rfl, rfl⟩ := Prod.mk.inj (List.mem_singleton.mp last)
      exact ⟨known, none, keeps.admits admits⟩

theorem Closed.listenAll {j k : Nat} {fs : List FutureId} (closed : s.Closed [])
    (join : j < s.joins.length) (known : ∀ f ∈ fs, s.Knows f) :
    (s.listenAll j k fs).Closed [] := by
  induction fs generalizing s k with
  | nil => exact closed
  | cons f rest ih =>
    have each := List.forall_mem_cons.mp known
    have keeps := keeps_onComplete s f (.fill j k)
    refine ih (closed.onComplete each.1 ⟨List.forall_mem_nil _, ?_⟩)
      (Nat.lt_of_lt_of_le join keeps.joins) fun f' member => keeps.knows (each.2 f' member)
    rintro _ _ ⟨⟩
    exact join

theorem Closed.all {fs : List FutureId} (closed : s.Closed []) (known : ∀ f ∈ fs, s.Knows f) :
    (s.all fs).2.Closed [] := by
  match fs with
  | [] => exact closed.completed .empty
  | [f] => exact closed
  | f :: g :: rest =>
    refine Closed.listenAll (closed.append none ?_) ?_ fun f' member =>
      (keeps_append s none _).knows (known f' member)
    · exact List.forall_mem_singleton.mpr rfl
    · rw [List.length_append]
      exact Nat.lt_succ_self _

theorem Closed.perform {op : Operation ν} (closed : s.Closed []) (fits : op.Fits s) :
    (s.perform op).Closed [] := by
  cases op with
  | pending => exact closed.pending
  | completed o => exact closed.completed o
  | clone f => exact closed
  | all fs => exact closed.all fits
  | combine f g => exact closed.all (List.forall_mem_cons.mpr ⟨fits.1, List.forall_mem_singleton.mpr fits.2⟩)
  | complete f o =>
    have assigned := closed.assign fits o
    rw [List.append_nil] at assigned
    exact assigned.settle
  | onComplete f l => exact closed.onComplete fits.1 (admits_of_caller fits.2.1 fits.2.2)

theorem closed_play {ops : List (Operation ν)} (valid : (empty : Futures ν).Valid ops) :
    (empty.play ops).Closed [] :=
  play_invariant (fun _ _ closed fits => Closed.perform closed fits) closed_empty valid

end Futures

end Cuescript
