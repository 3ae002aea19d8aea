import Mathlib.Data.List.Perm.Basic
import Cuescript.Proofs.Futures.Operations

/-!
Notes and what is told of them. A note that is registered on a future waits until the future is
complete, and is then heard with its outcome; nothing else is heard. Main statement: whatever is
done with futures, what has been heard is told by the notes that were registered and by the outcomes
that there are, up to order.
-/
namespace Cuescript

def Listener.label? {ν : Type} : Listener ν → Option ν
  | .note label => some label
  | _ => none

namespace Futures

variable {ν : Type} {s : Futures ν} {due rest : List (Call ν)} {f g : FutureId} {l : Listener ν}
  {o : Outcome} {told : List (ν × Outcome)} {ns : List (FutureId × ν)}

def notesOf (waiting : List (FutureId × Listener ν)) : List (FutureId × ν) :=
  waiting.filterMap fun e => e.2.label?.map fun label => (e.1, label)

def dueNotes (due : List (Call ν)) : List (ν × Outcome) :=
  due.filterMap fun c => c.1.label?.map fun label => (label, c.2)

def tidings (s : Futures ν) (ns : List (FutureId × ν)) : List (ν × Outcome) :=
  ns.filterMap fun n => (s.value? n.1).map fun o => (n.2, o)

/-- Of the notes `ns` those on complete futures have been told, are heard, or are due; the others
wait. -/
structure Tells (s : Futures ν) (told : List (ν × Outcome)) (ns : List (FutureId × ν))
    (due : List (Call ν)) : Prop where
  closed : s.Closed due
  known : ∀ n ∈ ns, s.Knows n.1
  waits : notesOf s.waiting = ns.filter fun n => !s.isComplete n.1
  heard : (told ++ s.heard ++ dueNotes due).Perm (s.tidings ns)

theorem notesOf_append (waiting more : List (FutureId × Listener ν)) :
    notesOf (waiting ++ more) = notesOf waiting ++ notesOf more := List.filterMap_append

theorem dueNotes_append (due more : List (Call ν)) :
    dueNotes (due ++ more) = dueNotes due ++ dueNotes more := List.filterMap_append

theorem tells_waiting (closed : s.Closed []) (silent : s.heard = []) :
    s.Tells [] (notesOf s.waiting) [] := by
  have pending : ∀ n ∈ notesOf s.waiting, s.Knows n.1 ∧ s.value? n.1 = none := by
    intro n member
    obtain ⟨⟨f, l⟩, waits, is⟩ := List.mem_filterMap.mp member
    obtain ⟨label, _, rfl⟩ := Option.map_eq_some_iff.mp is
    obtain ⟨known, none, _⟩ := closed.waiting f l waits
    exact ⟨known, none⟩
  refine ⟨closed, fun n member => (pending n member).1, ?_, ?_⟩
  · refine (List.filter_eq_self.mpr fun n member => ?_).symm
    rw [isComplete, (pending n member).2]
    rfl
  · have nothing : s.tidings (notesOf s.waiting) = [] := by
      rw [tidings, List.filterMap_eq_nil_iff]
      intro n member
      rw [(pending n member).2]
      rfl
    rw [silent, nothing]
    exact .refl _

theorem notesOf_filter (p : FutureId → Bool) (waiting : List (FutureId × Listener ν)) :
    notesOf (waiting.filter fun e => p e.1) = (notesOf waiting).filter fun n => p n.1 := by
  induction waiting with
  | nil => rfl
  | cons e rest ih =>
    obtain ⟨f, l⟩ := e
    rw [notesOf] at ih ⊢
    cases keep : p f <;> cases label : l.label? <;> simp [keep, label, ih, notesOf]

theorem dueNotes_called (waiting : List (FutureId × Listener ν)) (o : Outcome) :
    dueNotes (waiting.map fun e => (e.2, o)) = (notesOf waiting).map fun n => (n.2, o) := by
  rw [dueNotes, notesOf, List.filterMap_map, List.map_filterMap]
  congr 1
  funext e
  cases label : e.2.label? <;> simp [label]

theorem tidings_cons (s : Futures ν) (f : FutureId) (label : ν) (rest : List (FutureId × ν)) :
    s.tidings ((f, label) :: rest) =
      ((s.value? f).map fun o => (label, o)).toList ++ s.tidings rest := by
  rw [tidings, List.filterMap_cons]
  cases s.value? f <;> rfl

theorem tidings_assign (pending : s.value? g = none) (inside : s.Knows g) (o : Outcome)
    (ns : List (FutureId × ν)) :
    ((s.assign g o).1.tidings ns).Perm (s.tidings ns ++
      ((ns.filter fun n => !s.isComplete n.1).filter fun n => n.1 = g).map fun n => (n.2, o)) := by
  have value := value?_assign pending inside o
  induction ns with
  | nil => exact .refl _
  | cons n rest ih =>
    obtain ⟨f, label⟩ := n
    rw [tidings_cons, tidings_cons, value]
    by_cases own : f = g
    · subst own
      simp only [isComplete] at ih ⊢
      simpa [pending] using (ih.cons (label, o)).trans List.perm_middle.symm
    · rw [if_neg own, List.append_assoc]
      refine .trans (ih.append_left _) ?_
      cases before : s.value? f <;> simp [isComplete, before, own]

theorem Tells.assign (tells : s.Tells told ns due) (known : s.Knows g) (o : Outcome) :
    (s.assign g o).1.Tells told ns ((s.assign g o).2 ++ due) := by
  have closed := tells.closed.assign known o
  have kept : ∀ n ∈ ns, (s.assign g o).1.Knows n.1 :=
    fun n member => (keeps_assign s g o).knows (tells.known n member)
  cases before : s.value? g with
  | some x =>
    rw [assign_complete before]
    exact tells
  | none =>
    have value := value?_assign before known o
    have news := tidings_assign before known o ns
    refine ⟨closed, kept, ?_, ?_⟩
    · have left := notesOf_filter (fun f => decide (f ≠ g)) s.waiting
      rw [tells.waits, List.filter_filter] at left
      rw [assign_pending before]
      refine left.trans (List.filter_congr fun n _ => ?_)
      rw [← assign_pending before o, isComplete, isComplete, value]
      by_cases own : n.1 = g <;> simp [own, before]
    · have called : dueNotes (s.assign g o).2 =
          ((ns.filter fun n => !s.isComplete n.1).filter fun n => n.1 = g).map
            fun n => (n.2, o) := by
        rw [assign_pending before, ← tells.waits, ← notesOf_filter (fun f => decide (f = g))]
        exact dueNotes_called _ o
      have silent : (s.assign g o).1.heard = s.heard := by rw [assign_pending before]
      refine .trans ?_ news.symm
      rw [← called, silent, dueNotes_append]
      refine .trans ?_ (tells.heard.append_right _)
      rw [List.append_assoc (told ++ s.heard)]
      exact List.perm_append_comm.append_left _

theorem Tells.enter {c : Call ν} (tells : s.Tells told ns (c :: rest)) :
    (s.enter c).Tells told ns rest := by
  have same : (s.enter c).tidings ns = s.tidings ns := by
    simp only [tidings, enter_value?]
  have heard : (s.enter c).heard ++ dueNotes rest = s.heard ++ dueNotes (c :: rest) := by
    obtain ⟨l, o⟩ := c
    cases l with
    | note label => exact List.append_assoc ..
    | relay | react => rfl
    | fill join index =>
      cases found : s.joins[join]? <;> simp only [Futures.enter, found] <;> rfl
  refine ⟨tells.closed.enter, fun n member => (keeps_enter s c).knows (tells.known n member), ?_, ?_⟩
  · simp only [enter_waiting, isComplete, enter_value?]
    exact tells.waits
  · rw [same, List.append_assoc, heard, ← List.append_assoc]
    exact tells.heard

theorem Tells.reply {c : Call ν} (tells : s.Tells told ns (c :: rest)) :
    (s.enter c).Tells told ns (replies c ++ rest) := by
  have entered := tells.enter
  have none : dueNotes (replies c) = [] := by
    rw [dueNotes, List.filterMap_eq_nil_iff]
    rintro ⟨l, o⟩ reply
    obtain ⟨g, _, rfl⟩ := relay_of_reply reply
    rfl
  refine { entered with closed := tells.closed.reply, heard := ?_ }
  rw [dueNotes_append, none]
  exact entered.heard

theorem Tells.call {c : Call ν} (tells : s.Tells told ns (c :: rest)) :
    (s.call c).1.Tells told ns ((s.call c).2 ++ rest) := by
  rw [call_eq]
  split
  · rename_i g o is
    exact tells.enter.assign ((keeps_enter s c).knows (tells.closed.target is)) o
  · exact tells.reply

theorem Tells.settle (tells : s.Tells told ns due) : (s.settle due).Tells told ns [] := by
  induction s, due using Futures.settle.induct with
  | case1 s =>
    rw [Futures.settle]
    exact tells
  | case2 s c rest next ih =>
    rw [Futures.settle]
    exact ih tells.call

def noteOn (f : FutureId) (l : Listener ν) : List (FutureId × ν) :=
  (l.label?.map fun label => (f, label)).toList

theorem tidings_noteOn (value : s.value? f = some o) (l : Listener ν) :
    s.tidings (noteOn f l) = dueNotes [(l, o)] := by
  cases label : l.label? <;> simp [noteOn, tidings, dueNotes, value, label]

theorem tidings_noteOn_pending (value : s.value? f = none) (l : Listener ν) :
    s.tidings (noteOn f l) = [] := by
  cases label : l.label? <;> simp [noteOn, tidings, value, label]

theorem known_noteOn (known : s.Knows f) (before : ∀ n ∈ ns, s.Knows n.1) (l : Listener ν) :
    ∀ n ∈ ns ++ noteOn f l, s.Knows n.1 := by
  intro n member
  rcases List.mem_append.mp member with earlier | new
  · exact before n earlier
  · obtain ⟨label, _, rfl⟩ := Option.map_eq_some_iff.mp (Option.mem_toList.mp new)
    exact known

theorem Tells.listened (tells : s.Tells told ns []) (known : s.Knows f)
    (value : s.value? f = some o) (admits : s.Admits l) :
    s.Tells told (ns ++ noteOn f l) [(l, o)] := by
  refine ⟨{ tells.closed with due := fun l' x coming => ?_ },
    known_noteOn known tells.known l, ?_, ?_⟩
  · obtain ⟨rfl, -⟩ := Prod.mk.inj (List.mem_singleton.mp coming)
    exact admits
  · rw [tells.waits, List.filter_append]
    cases label : l.label? <;> simp [noteOn, label, isComplete, value]
  · have heard := tells.heard
    rw [dueNotes, List.filterMap_nil, List.append_nil] at heard
    rw [tidings, List.filterMap_append, ← tidings, ← tidings, tidings_noteOn value]
    exact heard.append_right _

theorem Tells.waiting (tells : s.Tells told ns []) (known : s.Knows f) (value : s.value? f = none)
    (closed : Closed { s with waiting := s.waiting ++ [(f, l)] } []) :
    Tells { s with waiting := s.waiting ++ [(f, l)] } told (ns ++ noteOn f l) [] := by
  refine ⟨closed, known_noteOn known tells.known l, ?_, ?_⟩
  · change _ = List.filter (fun n : FutureId × ν => !s.isComplete n.1) _
    rw [notesOf_append, tells.waits, List.filter_append]
    congr 1
    cases label : l.label? <;> simp [notesOf, noteOn, label, isComplete, value]
  · change List.Perm _ (s.tidings _)
    rw [tidings, List.filterMap_append, ← tidings, ← tidings, tidings_noteOn_pending value,
      List.append_nil]
    exact tells.heard

theorem Tells.onComplete (tells : s.Tells told ns []) (known : s.Knows f) (admits : s.Admits l) :
    (s.onComplete f l).Tells told (ns ++ noteOn f l) [] := by
  have closed := tells.closed.onComplete known admits
  rw [Futures.onComplete] at closed ⊢
  cases value : s.value? f with
  | some o => exact (tells.listened known value admits).settle
  | none =>
    rw [value] at closed
    exact tells.waiting known value closed

theorem Tells.listenAll {j k : Nat} {fs : List FutureId} (tells : s.Tells told ns [])
    (join : j < s.joins.length) (known : ∀ f ∈ fs, s.Knows f) :
    (s.listenAll j k fs).Tells told ns [] := by
  induction fs generalizing s k with
  | nil => exact tells
  | cons f rest ih =>
    have each := List.forall_mem_cons.mp known
    have keeps := keeps_onComplete s f (.fill j k)
    have admits : s.Admits (.fill j k) := by
      refine ⟨List.forall_mem_nil _, ?_⟩
      rintro _ _ ⟨⟩
      exact join
    have listens := tells.onComplete each.1 admits
    have silent : ns ++ noteOn f (.fill j k : Listener ν) = ns := List.append_nil ns
    rw [silent] at listens
    exact ih listens (Nat.lt_of_lt_of_le join keeps.joins)
      fun f' member => keeps.knows (each.2 f' member)

theorem Tells.append (tells : s.Tells told ns []) (v : Option Outcome) {joins : List Join}
    (into : ∀ j ∈ joins, j.into = ⟨s.values.length⟩) :
    Tells { s with values := s.values ++ [v], joins := s.joins ++ joins } told ns [] := by
  have keeps := keeps_append s v joins
  have value : ∀ n ∈ ns, Futures.value? { s with
      values := s.values ++ [v], joins := s.joins ++ joins } n.1 = s.value? n.1 := by
    intro n member
    rw [value?_append, if_neg (Nat.ne_of_lt (tells.known n member))]
  refine ⟨tells.closed.append v into, fun n member => keeps.knows (tells.known n member), ?_, ?_⟩
  · refine tells.waits.trans (List.filter_congr fun n member => ?_)
    rw [isComplete, isComplete, value n member]
  · have same : Futures.tidings { s with
        values := s.values ++ [v], joins := s.joins ++ joins } ns = s.tidings ns :=
      List.filterMap_congr fun n member => by rw [value n member]
    rw [same]
    exact tells.heard

theorem Tells.pending (tells : s.Tells told ns []) : s.pending.2.Tells told ns [] := by
  have added := tells.append none (List.forall_mem_nil _)
  rw [List.append_nil] at added
  exact added

theorem Tells.completed (tells : s.Tells told ns []) (o : Outcome) :
    (s.completed o).2.Tells told ns [] := by
  have added := tells.append (some o) (List.forall_mem_nil _)
  rw [List.append_nil] at added
  exact added

theorem Tells.all {fs : List FutureId} (tells : s.Tells told ns [])
    (known : ∀ f ∈ fs, s.Knows f) : (s.all fs).2.Tells told ns [] := by
  match fs with
  | [] => exact tells.completed .empty
  | [f] => exact tells
  | f :: g :: rest =>
    refine Tells.listenAll (tells.append none (List.forall_mem_singleton.mpr rfl)) ?_
      fun f' member => (keeps_append s none _).knows (known f' member)
    rw [List.length_append]
    exact Nat.lt_succ_self _

theorem Closed.take (closed : s.Closed []) : s.takeHeard.2.Closed [] := by
  have keeps : s.Keeps s.takeHeard.2 := ⟨Nat.le_refl _, Nat.le_refl _, fun _ _ => id⟩
  refine ⟨fun f l waits => ?_, fun l o coming => keeps.admits (closed.due l o coming),
    closed.joins⟩
  obtain ⟨known, none, admits⟩ := closed.waiting f l waits
  exact ⟨known, none, keeps.admits admits⟩

theorem Tells.take (tells : s.Tells told ns []) :
    s.takeHeard.2.Tells (told ++ s.takeHeard.1) ns [] := by
  refine ⟨tells.closed.take, tells.known, tells.waits, ?_⟩
  have same : told ++ s.takeHeard.1 ++ s.takeHeard.2.heard = told ++ s.heard := List.append_nil _
  rw [same]
  exact tells.heard

end Futures

end Cuescript
