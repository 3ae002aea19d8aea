import Mathlib.Logic.Function.Iterate
import Cuescript.Proofs.Futures.Operations

/-!
What happens to futures in a run: which listeners are registered, which are called, and which
completions are tried. The history is read off the run, call by call; an invariant says what it has
to do with the state. Main statement: in every valid run the calls come to an end, an outcome stays,
exactly one completion of a complete future has been its first, and the listeners of a future have
been called once each with its outcome, in the order of registration, if it has one, and not at all
otherwise.
-/
namespace Cuescript.Futures

variable {ν : Type} {s : Futures ν} {f g : FutureId} {l : Listener ν} {o : Outcome}

/-- A listener is registered on a future. One that is registered on a future is called; a reaction
calls too, on behalf of no future. A completion is tried, and is the first of its future or not. -/
inductive Event (ν : Type) where
  | listened (f : FutureId) (l : Listener ν)
  | called (source? : Option FutureId) (l : Listener ν) (o : Outcome)
  | completed (f : FutureId) (o : Outcome) (first : Bool)

structure Due (ν : Type) where
  source? : Option FutureId
  call : Call ν

def trial (s : Futures ν) (f : FutureId) (o : Outcome) : Event ν :=
  .completed f o (s.complete f o).1

def callEvents (s : Futures ν) (d : Due ν) : List (Event ν) :=
  .called d.source? d.call.1 d.call.2 :: ((s.target? d.call).map fun t => s.trial t.1 t.2).toList

def released (s : Futures ν) (d : Due ν) : List (Due ν) :=
  (s.call d.call).2.map fun c => ⟨(s.target? d.call).map Prod.fst, c⟩

theorem map_call_released (s : Futures ν) (d : Due ν) :
    (s.released d).map Due.call = (s.call d.call).2 := by
  simp [released, Function.comp_def]

def settleLog (s : Futures ν) (due : List (Due ν)) : List (Event ν) :=
  match due with
  | [] => []
  | d :: rest => s.callEvents d ++ settleLog (s.call d.call).1 (s.released d ++ rest)
termination_by s.outstanding (due.map Due.call)
decreasing_by
  have bound := call_bound s d.call
  simp only [outstanding, List.map_append, map_call_released, Listener.worths_append,
    List.map_cons, List.map_nil, Listener.worths] at bound ⊢
  omega

def completeLog (s : Futures ν) (f : FutureId) (o : Outcome) : List (Event ν) :=
  s.trial f o :: (s.assign f o).1.settleLog ((s.assign f o).2.map fun c => ⟨some f, c⟩)

def onCompleteLog (s : Futures ν) (f : FutureId) (l : Listener ν) : List (Event ν) :=
  .listened f l ::
    match s.value? f with
    | some o => s.settleLog [⟨some f, l, o⟩]
    | none => []

def listenAllLog (s : Futures ν) (join index : Nat) : List FutureId → List (Event ν)
  | [] => []
  | f :: rest =>
    s.onCompleteLog f (.fill join index) ++
      (s.onComplete f (.fill join index)).listenAllLog join (index + 1) rest

def completedLog (s : Futures ν) (o : Outcome) : List (Event ν) :=
  s.pending.2.completeLog s.pending.1 o

def allLog (s : Futures ν) (fs : List FutureId) : List (Event ν) :=
  match fs with
  | [] => s.completedLog .empty
  | [_] => []
  | _ =>
    let (into, s) := s.pending
    let join := s.joins.length
    let s := { s with joins := s.joins ++ [Join.mk into (List.replicate fs.length none)] }
    s.listenAllLog join 0 fs

def log (s : Futures ν) : Operation ν → List (Event ν)
  | .pending => []
  | .completed o => s.completedLog o
  | .clone _ => []
  | .all fs => s.allLog fs
  | .combine f g => s.allLog [f, g]
  | .complete f o => s.completeLog f o
  | .onComplete f l => s.onCompleteLog f l

def history (s : Futures ν) : List (Operation ν) → List (Event ν)
  | [] => []
  | op :: rest => s.log op ++ (s.perform op).history rest

/-! What a history says of a future. -/

def Event.listenedOn? (f : FutureId) : Event ν → Option (Listener ν)
  | .listened g l => if g = f then some l else none
  | _ => none

def Event.calledOn? (f : FutureId) : Event ν → Option (Call ν)
  | .called (some g) l o => if g = f then some (l, o) else none
  | _ => none

def Event.first? (f : FutureId) : Event ν → Option Outcome
  | .completed g o true => if g = f then some o else none
  | _ => none

def Event.note? : Event ν → Option (ν × Outcome)
  | .called _ (.note label) o => some (label, o)
  | _ => none

def listenedOn (f : FutureId) (es : List (Event ν)) : List (Listener ν) :=
  es.filterMap (Event.listenedOn? f)

def calledOn (f : FutureId) (es : List (Event ν)) : List (Call ν) :=
  es.filterMap (Event.calledOn? f)

def firstsOf (f : FutureId) (es : List (Event ν)) : List Outcome :=
  es.filterMap (Event.first? f)

def Event.caller? : Event ν → Option (FutureId × Listener ν)
  | .listened f l => if l.isFill then none else some (f, l)
  | _ => none

def notesIn (es : List (Event ν)) : List (ν × Outcome) := es.filterMap Event.note?

def dueOn (f : FutureId) (due : List (Due ν)) : List (Call ν) :=
  (due.filter fun d => d.source? = some f).map Due.call

def waitingOn (s : Futures ν) (f : FutureId) : List (Listener ν) :=
  (s.waiting.filter fun l => l.1 = f).map Prod.snd

/-- The history up to now, and the calls that are due, account for the state. -/
structure Faithful (s : Futures ν) (es : List (Event ν)) (due : List (Due ν)) : Prop where
  closed : s.Closed (due.map Due.call)
  firsts : ∀ f, firstsOf f es = (s.value? f).toList
  waits : ∀ f, s.waitingOn f = if s.isComplete f then [] else listenedOn f es
  calls : ∀ f, calledOn f es ++ dueOn f due =
    (s.value? f).toList.flatMap fun o => (listenedOn f es).map fun l => (l, o)
  heard : s.heard = notesIn es

theorem faithful_empty : (empty : Futures ν).Faithful [] [] :=
  ⟨closed_empty, fun _ => rfl, fun _ => rfl, fun _ => rfl, rfl⟩

theorem trial_enter (s : Futures ν) (c : Call ν) (g : FutureId) (o : Outcome) :
    (s.enter c).trial g o = s.trial g o := by
  simp only [trial, complete, isComplete, enter_value?]

theorem heard_enter (s : Futures ν) (d : Due ν) :
    (s.enter d.call).heard = s.heard ++ notesIn [.called d.source? d.call.1 d.call.2] := by
  obtain ⟨source?, l, o⟩ := d
  cases l with
  | note label => rfl
  | relay next => exact (List.append_nil _).symm
  | react replies => exact (List.append_nil _).symm
  | fill join index =>
    refine Eq.trans ?_ (List.append_nil _).symm
    cases found : s.joins[join]? <;> simp only [enter, found]

theorem dueOn_cons (f : FutureId) (d : Due ν) (rest : List (Due ν)) :
    calledOn f [.called d.source? d.call.1 d.call.2] ++ dueOn f rest = dueOn f (d :: rest) := by
  obtain ⟨source?, l, o⟩ := d
  cases source? with
  | none => simp [calledOn, Event.calledOn?, dueOn]
  | some g => by_cases own : g = f <;> simp [calledOn, Event.calledOn?, dueOn, own]

theorem dueOn_append (f : FutureId) (due more : List (Due ν)) :
    dueOn f (due ++ more) = dueOn f due ++ dueOn f more := by
  rw [dueOn, List.filter_append, List.map_append]
  rfl

theorem dueOn_called (f g : FutureId) (cs : List (Call ν)) :
    dueOn f (cs.map fun c => ⟨some g, c⟩) = if f = g then cs else [] := by
  by_cases own : f = g
  · subst own
    simp [dueOn, List.filter_map, Function.comp_def]
  · simp [dueOn, List.filter_map, Function.comp_def, own, Ne.symm own]

variable {es : List (Event ν)} {due rest : List (Due ν)}

theorem Faithful.enter {d : Due ν} (faithful : s.Faithful es (d :: rest)) :
    (s.enter d.call).Faithful (es ++ [.called d.source? d.call.1 d.call.2]) rest := by
  have listens : ∀ f, listenedOn f (es ++ [.called d.source? d.call.1 d.call.2]) =
      listenedOn f es := by
    intro f
    rw [listenedOn, List.filterMap_append]
    exact List.append_nil _
  refine ⟨faithful.closed.enter, fun f => ?_, fun f => ?_, fun f => ?_, ?_⟩
  · rw [firstsOf, List.filterMap_append, enter_value?, ← faithful.firsts f]
    exact List.append_nil _
  · rw [waitingOn, enter_waiting, isComplete, enter_value?, listens]
    exact faithful.waits f
  · rw [enter_value?, listens, ← faithful.calls f, ← dueOn_cons, ← List.append_assoc, calledOn,
      calledOn, calledOn, List.filterMap_append]
  · rw [heard_enter, faithful.heard, notesIn, notesIn, notesIn, List.filterMap_append]

theorem trial_again {x : Outcome} (before : s.value? g = some x) (o : Outcome) :
    s.trial g o = .completed g o false := by
  rw [trial, complete, isComplete, before]
  rfl

theorem trial_first (before : s.value? g = none) (o : Outcome) :
    s.trial g o = .completed g o true := by
  rw [trial, complete, isComplete, before]
  rfl

theorem listened_trial (s : Futures ν) (g : FutureId) (o : Outcome) (es : List (Event ν)) :
    (∀ f, listenedOn f (es ++ [s.trial g o]) = listenedOn f es) ∧
      (∀ f, calledOn f (es ++ [s.trial g o]) = calledOn f es) ∧
      notesIn (es ++ [s.trial g o]) = notesIn es := by
  refine ⟨fun f => ?_, fun f => ?_, ?_⟩
  · rw [listenedOn, List.filterMap_append]
    exact List.append_nil _
  · rw [calledOn, List.filterMap_append]
    exact List.append_nil _
  · rw [notesIn, List.filterMap_append]
    exact List.append_nil _

theorem waitingOn_assign (before : s.value? g = none) (o : Outcome) (f : FutureId) :
    (s.assign g o).1.waitingOn f = if f = g then [] else s.waitingOn f := by
  rw [assign_pending before, waitingOn]
  by_cases own : f = g
  · subst own
    simp
  · rw [if_neg own, waitingOn, List.filter_filter]
    congr 1
    apply List.filter_congr
    intro e _
    by_cases on : e.1 = f <;> simp [on, own]

theorem dueOn_assign (before : s.value? g = none) (o : Outcome) (f : FutureId) :
    dueOn f ((s.assign g o).2.map fun c => ⟨some g, c⟩) =
      if f = g then (s.waitingOn f).map fun l => (l, o) else [] := by
  rw [dueOn_called, assign_pending before]
  by_cases own : f = g
  · subst own
    simp [waitingOn, Function.comp_def]
  · rw [if_neg own, if_neg own]

theorem Faithful.assign (faithful : s.Faithful es due) (known : s.Knows g) (o : Outcome) :
    (s.assign g o).1.Faithful (es ++ [s.trial g o])
      ((s.assign g o).2.map (fun c => ⟨some g, c⟩) ++ due) := by
  obtain ⟨listens, calls, notes⟩ := listened_trial s g o es
  have closed : (s.assign g o).1.Closed
      (((s.assign g o).2.map (fun c => (⟨some g, c⟩ : Due ν)) ++ due).map Due.call) := by
    have assigned := faithful.closed.assign known o
    simpa [Function.comp_def] using assigned
  cases before : s.value? g with
  | some x =>
    rw [assign_complete before] at closed ⊢
    refine ⟨closed, fun f => ?_, fun f => ?_, fun f => ?_, ?_⟩
    · rw [trial_again before, firstsOf, List.filterMap_append, ← faithful.firsts f]
      exact List.append_nil _
    · rw [listens]
      exact faithful.waits f
    · rw [listens, calls]
      exact faithful.calls f
    · rw [notes]
      exact faithful.heard
  | none =>
    -- Until now no listener of `g` was called, so those that wait are all there are.
    have value := value?_assign before known o
    refine ⟨closed, fun f => ?_, fun f => ?_, fun f => ?_, ?_⟩
    · rw [trial_first before, firstsOf, List.filterMap_append, ← firstsOf, faithful.firsts f, value]
      by_cases own : f = g
      · subst own
        simp [before, Event.first?]
      · simp [Event.first?, own, Ne.symm own]
    · rw [listens, isComplete, value, waitingOn_assign before]
      by_cases own : f = g
      · simp [own]
      · rw [if_neg own, if_neg own]
        exact faithful.waits f
    · have earlier := faithful.calls f
      rw [listens, calls, value, dueOn_append, dueOn_assign before]
      by_cases own : f = g
      · subst own
        rw [before] at earlier
        obtain ⟨none, nothing⟩ := List.append_eq_nil_iff.mp earlier
        have waits := faithful.waits f
        rw [isComplete, before, if_neg (by decide)] at waits
        simp [none, nothing, waits]
      · simp [own, ← earlier]
    · rw [notes, assign_pending before]
      exact faithful.heard

/-- The completions that a reaction makes are listeners of no future. -/
theorem Faithful.reply {d : Due ν} (faithful : s.Faithful es (d :: rest)) :
    (s.enter d.call).Faithful (es ++ [.called d.source? d.call.1 d.call.2])
      ((replies d.call).map (fun c => ⟨none, c⟩) ++ rest) := by
  have entered := faithful.enter
  refine { entered with closed := ?_, calls := fun f => ?_ }
  · have closed := faithful.closed.reply
    simpa [Function.comp_def] using closed
  · have none : dueOn f ((replies d.call).map fun c => (⟨none, c⟩ : Due ν)) = [] := by
      simp [dueOn, List.filter_map, Function.comp_def]
    rw [dueOn_append, none]
    exact entered.calls f

theorem Faithful.call {d : Due ν} (faithful : s.Faithful es (d :: rest)) :
    (s.call d.call).1.Faithful (es ++ s.callEvents d) (s.released d ++ rest) := by
  cases is : s.target? d.call with
  | none =>
    have call : s.call d.call = (s.enter d.call, replies d.call) := by rw [call_eq, is]
    rw [callEvents, released, is, call]
    exact faithful.reply
  | some t =>
    obtain ⟨g, o⟩ := t
    have call : s.call d.call = (s.enter d.call).assign g o := by rw [call_eq, is]
    have known : (s.enter d.call).Knows g := (keeps_enter s d.call).knows (faithful.closed.target is)
    have assigned := faithful.enter.assign known o
    rw [trial_enter, List.append_assoc] at assigned
    rw [callEvents, released, is, call]
    exact assigned

theorem Faithful.settle (faithful : s.Faithful es due) :
    (s.settle (due.map Due.call)).Faithful (es ++ s.settleLog due) [] := by
  induction s, due using Futures.settleLog.induct generalizing es with
  | case1 s =>
    rw [List.map_nil, Futures.settle, settleLog, List.append_nil]
    exact faithful
  | case2 s d rest ih =>
    have next := ih faithful.call
    rw [List.map_append, map_call_released, List.append_assoc] at next
    rw [List.map_cons, Futures.settle, settleLog]
    exact next

theorem Faithful.complete (faithful : s.Faithful es []) (known : s.Knows f) (o : Outcome) :
    (s.complete f o).2.Faithful (es ++ s.completeLog f o) [] := by
  have assigned := faithful.assign known o
  rw [List.append_nil] at assigned
  have settled := assigned.settle
  have calls : ((s.assign f o).2.map fun c => (⟨some f, c⟩ : Due ν)).map Due.call =
      (s.assign f o).2 := by
    simp [Function.comp_def]
  rw [calls, List.append_assoc] at settled
  exact settled

theorem called_listened (f : FutureId) (l : Listener ν) (es : List (Event ν)) :
    (∀ g, listenedOn g (es ++ [.listened f l]) = listenedOn g es ++ if f = g then [l] else []) ∧
      (∀ g, calledOn g (es ++ [.listened f l]) = calledOn g es) ∧
      (∀ g, firstsOf g (es ++ [.listened f l]) = firstsOf g es) ∧
      notesIn (es ++ [.listened f l]) = notesIn es := by
  refine ⟨fun g => ?_, fun g => ?_, fun g => ?_, ?_⟩
  · by_cases own : f = g <;> simp [listenedOn, Event.listenedOn?, own]
  · rw [calledOn, List.filterMap_append]
    exact List.append_nil _
  · rw [firstsOf, List.filterMap_append]
    exact List.append_nil _
  · rw [notesIn, List.filterMap_append]
    exact List.append_nil _

theorem Faithful.listened (faithful : s.Faithful es []) (value : s.value? f = some o)
    (admits : s.Admits l) : s.Faithful (es ++ [.listened f l]) [⟨some f, l, o⟩] := by
  obtain ⟨listens, calls, firsts, notes⟩ := called_listened f l es
  refine ⟨{ faithful.closed with due := fun l' x coming => ?_ }, fun g => ?_, fun g => ?_,
    fun g => ?_, notes ▸ faithful.heard⟩
  · obtain ⟨rfl, -⟩ := Prod.mk.inj (List.mem_singleton.mp coming)
    exact admits
  · rw [firsts]
    exact faithful.firsts g
  · rw [listens, faithful.waits g]
    by_cases own : f = g
    · subst own
      simp [isComplete, value]
    · rw [if_neg own, List.append_nil]
  · have earlier := faithful.calls g
    rw [show dueOn g [] = [] from rfl, List.append_nil] at earlier
    rw [calls, listens, earlier]
    by_cases own : f = g
    · subst own
      simp [value, dueOn]
    · simp [own, dueOn]

theorem Faithful.waiting (faithful : s.Faithful es []) (value : s.value? f = none)
    (closed : Closed { s with waiting := s.waiting ++ [(f, l)] } []) :
    Faithful { s with waiting := s.waiting ++ [(f, l)] } (es ++ [.listened f l]) [] := by
  obtain ⟨listens, calls, firsts, notes⟩ := called_listened f l es
  refine ⟨closed, fun g => ?_, fun g => ?_, fun g => ?_, notes ▸ faithful.heard⟩
  · rw [firsts]
    exact faithful.firsts g
  · have waits := faithful.waits g
    rw [waitingOn] at waits
    rw [listens, waitingOn, List.filter_append, List.map_append, waits]
    change _ = if s.isComplete g = true then [] else _
    by_cases own : f = g
    · subst own
      simp [isComplete, value]
    · simp [own]
  · have earlier := faithful.calls g
    change _ = (s.value? g).toList.flatMap _
    rw [calls, listens, earlier]
    by_cases own : f = g
    · subst own
      simp [value]
    · simp [own]

theorem Faithful.onComplete (faithful : s.Faithful es []) (known : s.Knows f)
    (admits : s.Admits l) : (s.onComplete f l).Faithful (es ++ s.onCompleteLog f l) [] := by
  have closed := faithful.closed.onComplete known admits
  rw [Futures.onComplete] at closed ⊢
  rw [onCompleteLog]
  cases value : s.value? f with
  | some o =>
    have settled := (faithful.listened value admits).settle
    rw [List.append_assoc] at settled
    exact settled
  | none =>
    rw [value] at closed
    exact faithful.waiting value closed

theorem Faithful.listenAll {j k : Nat} {fs : List FutureId} (faithful : s.Faithful es [])
    (join : j < s.joins.length) (known : ∀ f ∈ fs, s.Knows f) :
    (s.listenAll j k fs).Faithful (es ++ s.listenAllLog j k fs) [] := by
  induction fs generalizing s k es with
  | nil =>
    rw [listenAllLog, List.append_nil]
    exact faithful
  | cons f rest ih =>
    have each := List.forall_mem_cons.mp known
    have keeps := keeps_onComplete s f (.fill j k)
    have admits : s.Admits (.fill j k) := by
      refine ⟨List.forall_mem_nil _, ?_⟩
      rintro _ _ ⟨⟩
      exact join
    have next := ih (faithful.onComplete each.1 admits) (Nat.lt_of_lt_of_le join keeps.joins)
      (k := k + 1) fun f' member => keeps.knows (each.2 f' member)
    rw [List.append_assoc] at next
    exact next

theorem Faithful.append (faithful : s.Faithful es []) {joins : List Join}
    (into : ∀ j ∈ joins, j.into = ⟨s.values.length⟩) :
    Faithful { s with values := s.values ++ [none], joins := s.joins ++ joins } es [] := by
  have value : ∀ f, Futures.value? { s with
      values := s.values ++ [none], joins := s.joins ++ joins } f = s.value? f := by
    intro f
    rw [value?_append]
    split
    · rename_i new
      rw [value?_eq_none_of_not_knows (Nat.not_lt_of_le (Nat.le_of_eq new.symm))]
    · rfl
  refine ⟨faithful.closed.append none into, fun f => ?_, fun f => ?_, fun f => ?_, faithful.heard⟩
  · rw [value]
    exact faithful.firsts f
  · rw [isComplete, value]
    exact faithful.waits f
  · rw [value]
    exact faithful.calls f

theorem Faithful.pending (faithful : s.Faithful es []) : s.pending.2.Faithful es [] := by
  have added := faithful.append (List.forall_mem_nil _)
  rw [List.append_nil] at added
  exact added

/-- Making a complete future is completing a new one. -/
theorem completed_eq (closed : s.Closed []) (o : Outcome) :
    (s.completed o).2 = (s.pending.2.complete s.pending.1 o).2 := by
  have unknown : ∀ e ∈ s.pending.2.waiting, e.1 ≠ s.pending.1 := by
    rintro ⟨f, l⟩ waits rfl
    exact Nat.lt_irrefl _ (closed.waiting _ l waits).1
  have still : s.pending.2.value? s.pending.1 = none := by
    simp [Futures.pending, value?]
  have alone : s.pending.2.waiting.filter (fun l => l.1 ≠ s.pending.1) = s.waiting :=
    List.filter_eq_self.mpr fun e waits => by simpa using unknown e waits
  have nobody : s.pending.2.waiting.filter (fun l => l.1 = s.pending.1) = [] :=
    List.filter_eq_nil_iff.mpr fun e waits => by simpa using unknown e waits
  have assigned : s.pending.2.assign s.pending.1 o = ((s.completed o).2, []) := by
    rw [assign_pending still, alone, nobody]
    simp [Futures.pending, Futures.completed]
  rw [Futures.complete, assigned]
  exact (Futures.settle.eq_1 _).symm

theorem Faithful.completed (faithful : s.Faithful es []) (o : Outcome) :
    (s.completed o).2.Faithful (es ++ s.completedLog o) [] := by
  have made : s.pending.2.Knows s.pending.1 := by
    simp [Futures.pending, Knows]
  rw [completed_eq faithful.closed]
  exact faithful.pending.complete made o

theorem Faithful.all {fs : List FutureId} (faithful : s.Faithful es [])
    (known : ∀ f ∈ fs, s.Knows f) : (s.all fs).2.Faithful (es ++ s.allLog fs) [] := by
  match fs with
  | [] => exact faithful.completed .empty
  | [f] =>
    rw [allLog, List.append_nil]
    exact faithful
  | f :: g :: rest =>
    refine (faithful.append (List.forall_mem_singleton.mpr rfl)).listenAll ?_ fun f' member =>
      (keeps_append s none _).knows (known f' member)
    rw [List.length_append]
    exact Nat.lt_succ_self _

theorem Faithful.perform {op : Operation ν} (faithful : s.Faithful es []) (fits : op.Fits s) :
    (s.perform op).Faithful (es ++ s.log op) [] := by
  cases op with
  | pending =>
    rw [log, List.append_nil]
    exact faithful.pending
  | completed o => exact faithful.completed o
  | clone f =>
    rw [log, List.append_nil]
    exact faithful
  | all fs => exact faithful.all fits
  | combine f g =>
    exact faithful.all (List.forall_mem_cons.mpr ⟨fits.1, List.forall_mem_singleton.mpr fits.2⟩)
  | complete f o => exact faithful.complete fits o
  | onComplete f l => exact faithful.onComplete fits.1 (admits_of_caller fits.2.1 fits.2.2)

theorem Faithful.play {ops : List (Operation ν)} (faithful : s.Faithful es [])
    (valid : s.Valid ops) : (s.play ops).Faithful (es ++ s.history ops) [] := by
  induction ops generalizing s es with
  | nil =>
    rw [history, List.append_nil]
    exact faithful
  | cons op rest ih =>
    have next := ih (faithful.perform valid.1) valid.2
    rw [List.append_assoc] at next
    exact next

/-! The listeners in a history are those that callers have registered, and those of joins. -/

def Operation.listener? : Operation ν → Option (FutureId × Listener ν)
  | .onComplete f l => some (f, l)
  | _ => none

theorem settleLog_callers (s : Futures ν) (due : List (Due ν)) :
    (s.settleLog due).filterMap Event.caller? = [] := by
  induction s, due using Futures.settleLog.induct with
  | case1 s =>
    rw [settleLog]
    rfl
  | case2 s d rest ih =>
    rw [settleLog, List.filterMap_append, ih, List.append_nil, callEvents]
    cases s.target? d.call <;> rfl

theorem listenAllLog_callers (s : Futures ν) (j k : Nat) (fs : List FutureId) :
    (s.listenAllLog j k fs).filterMap Event.caller? = [] := by
  induction fs generalizing s k with
  | nil => rfl
  | cons f rest ih =>
    rw [listenAllLog, List.filterMap_append, ih, List.append_nil, onCompleteLog]
    cases s.value? f with
    | none => rfl
    | some o => exact settleLog_callers s _

theorem allLog_callers (s : Futures ν) (fs : List FutureId) :
    (s.allLog fs).filterMap Event.caller? = [] := by
  match fs with
  | [] => exact settleLog_callers _ _
  | [_] => rfl
  | _ :: _ :: _ => exact listenAllLog_callers ..

theorem log_callers {op : Operation ν} (fits : op.Fits s) :
    (s.log op).filterMap Event.caller? = op.listener?.toList := by
  cases op with
  | pending | clone => rfl
  | completed o => exact settleLog_callers _ _
  | all fs => exact allLog_callers s fs
  | combine f g => exact allLog_callers s [f, g]
  | complete f o => exact settleLog_callers _ _
  | onComplete f l =>
    have caller : Event.caller? (.listened f l) = some (f, l) := by
      rw [Event.caller?, fits.2.1, if_neg Bool.false_ne_true]
    rw [log, onCompleteLog, List.filterMap_cons_some caller]
    cases s.value? f with
    | none => rfl
    | some o => exact congrArg _ (settleLog_callers s _)

theorem history_callers {ops : List (Operation ν)} (valid : s.Valid ops) :
    (s.history ops).filterMap Event.caller? = ops.filterMap Operation.listener? := by
  induction ops generalizing s with
  | nil => rfl
  | cons op rest ih =>
    rw [history, List.filterMap_append, log_callers valid.1, ih valid.2, List.filterMap_cons]
    cases op.listener? <;> rfl

/-! The calls that are due come to an end, one at a time. -/

def advance : Futures ν × List (Call ν) → Futures ν × List (Call ν)
  | (s, []) => (s, [])
  | (s, c :: rest) => ((s.call c).1, (s.call c).2 ++ rest)

theorem advance_settle (s : Futures ν) (due : List (Call ν)) :
    ∃ n ≤ s.outstanding due, advance^[n] (s, due) = (s.settle due, []) := by
  induction s, due using Futures.settle.induct with
  | case1 s =>
    rw [Futures.settle]
    exact ⟨0, Nat.zero_le _, rfl⟩
  | case2 s c rest next ih =>
    obtain ⟨n, few, ends⟩ := ih
    rw [Futures.settle]
    refine ⟨n + 1, ?_, ends⟩
    have bound := call_bound s c
    simp only [next, outstanding, List.map_append, Listener.worths_append, List.map_cons,
      List.map_nil, Listener.worths] at few bound ⊢
    omega

structure Delivers (ops : List (Operation ν)) : Prop where
  /-- Calls that are due come to an end, after as many as the listeners are worth. -/
  ends : ∀ (s : Futures ν) due, ∃ n ≤ s.outstanding due,
    advance^[n] (s, due) = (s.settle due, [])
  /-- An outcome stays what it is. -/
  stays : ∀ before after, ops = before ++ after → ∀ f o,
    ((empty : Futures ν).play before).value? f = some o → (empty.play ops).value? f = some o
  /-- Of the completions of a future one has been its first, if it has an outcome, and gave it. -/
  firsts : ∀ f, firstsOf f ((empty : Futures ν).history ops) =
    ((empty.play ops).value? f).toList
  /-- Each listener of a future has been called once with its outcome, in the order of registration,
  if there is one, and none has been called otherwise. -/
  calls : ∀ f, calledOn f (empty.history ops) = ((empty.play ops).value? f).toList.flatMap
    fun o => (listenedOn f (empty.history ops)).map fun l => (l, o)
  /-- What callers have registered is what they have registered, in order. -/
  callers : ((empty : Futures ν).history ops).filterMap Event.caller? =
    ops.filterMap Operation.listener?
  /-- The notes that have been taken are those of the calls. -/
  heard : (empty.play ops).heard = notesIn (empty.history ops)

theorem play_delivers {ops : List (Operation ν)} (valid : (empty : Futures ν).Valid ops) :
    Delivers ops := by
  have faithful := faithful_empty.play valid
  rw [List.nil_append] at faithful
  refine ⟨advance_settle, ?_, faithful.firsts, fun f => ?_, history_callers valid, faithful.heard⟩
  · rintro before after rfl f o is
    rw [play_append]
    exact (keeps_play _ after).values f o is
  · rw [← faithful.calls f]
    exact (List.append_nil _).symm

/-- Two futures that complete each other, one of them also a part of a conjunction. -/
def ring : List (Operation String) :=
  [.pending, .pending, .all [⟨0⟩, ⟨1⟩, ⟨0⟩],
    .onComplete ⟨0⟩ (.react [(⟨1⟩, some), (⟨0⟩, fun o => some o.negate)]),
    .onComplete ⟨1⟩ (.relay ⟨0⟩), .onComplete ⟨2⟩ (.note "all"), .onComplete ⟨1⟩ (.note "other"),
    .complete ⟨0⟩ .passed]

theorem play_delivers_ring : (empty : Futures String).Valid ring ∧ Delivers ring ∧
    (empty.play ring).heard = [("all", .passed), ("other", .passed)] := by
  have valid : (empty : Futures String).Valid ring := by decide +kernel
  exact ⟨valid, play_delivers valid, by decide +kernel⟩

end Cuescript.Futures
