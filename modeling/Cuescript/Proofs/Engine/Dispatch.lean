import Cuescript.Engine.Basic
import Cuescript.Proofs.Execution.Tidings
import Cuescript.Proofs.Futures.Joins

/-!
The trigger nodes that a call reaches. They are visited one after the other, script by script; each
visit brings a future, puts off tasks, and registers the announcement of the node on its future.
Main statement: when all have been visited, each of these futures waits for the tasks that were put
off in its visit, and the future of the call is their conjunction.
-/
namespace Cuescript

namespace World

variable {ν : Type} {w w' : World ν} {ways more : Wiring} {new : List Task} {fs : List FutureId}
  {es : List Prospect} {f c : FutureId} {on : List FutureId} {told : List (ν × Outcome)}
  {ns : List (FutureId × ν)}

theorem Grows.note (grows : Grows w w' ways more new fs es) (member : f ∈ fs) (label : ν) :
    Grows w (w'.onComplete f (.note label)) ways more new fs es := by
  obtain ⟨k, inside, rfl⟩ := List.mem_iff_getElem.mp member
  have reads := grows.reads.get inside (grows.reads.length_eq ▸ inside)
  exact { grows with wired := grows.wired.note reads.known label }

theorem Awaits.later (awaits : w.Awaits ways f on) (tasks : w'.tasks = w.tasks) (more : Wiring) :
    w'.Awaits (ways ++ more) f on := by
  obtain ⟨e, reads, waits⟩ := awaits.reads
  refine ⟨fun g member => ?_, e, reads.append more, ?_⟩
  · rw [List.length_append]
    exact Nat.lt_add_right _ (awaits.known g member)
  · rw [tasks]
    exact waits

def Conjoined (ways : Wiring) (c : FutureId) (fs : List FutureId) : Prop :=
  ∃ es, ways.Reads c (.all es) ∧ List.Forall₂ ways.Reads fs es

theorem Engaged.conjoins (engaged : w.Engaged ways) (conjoined : Conjoined ways c fs) :
    w.futures.Conjoins c fs := by
  obtain ⟨es, reads, parts⟩ := conjoined
  apply Futures.conjoins_of_value?
  rw [engaged.wired.value?_eq reads, engaged.wired.values_eq parts]
  exact Prospect.eval_all es c

theorem Conjoined.substitute {ways' : Wiring} {σ : Prospect → Prospect}
    (conjoined : Conjoined ways c fs) (substitution : Prospect.Substitution σ)
    (kept : ∀ f e, ways.Reads f e → ways'.Reads f (σ e)) : Conjoined ways' c fs := by
  obtain ⟨es, reads, parts⟩ := conjoined
  refine ⟨es.map σ, ?_, List.forall₂_map_right_iff.mpr (parts.imp fun _ _ => kept _ _)⟩
  rw [← substitution.all]
  exact kept c _ reads

end World

namespace Engine

open World

variable {w : World Announcement} {ways : Wiring} {told : List TriggerEvent}
  {ns : List (FutureId × Announcement)}

structure Visit where
  script : Script
  node : TriggerNode
  future : FutureId
  tasks : List FutureId

def Visit.note (t : Target) (d : TriggerData) (v : Visit) : FutureId × Announcement :=
  (v.future, ⟨v.script.id, v.node.identifier, t.id, d, v.script.settings.executeActions⟩)

def tour (w : World Announcement) (t : Target) (d : TriggerData) :
    List (Script × TriggerNode) → List Visit × World Announcement
  | [] => ([], w)
  | (s, n) :: rest =>
    let (f, w') := reach w s n t d
    let (vs, w'') := tour w' t d rest
    (⟨s, n, f, w'.deferrals.drop w.deferrals.length⟩ :: vs, w'')

theorem tour_cons (w : World Announcement) (t : Target) (d : TriggerData) (s : Script)
    (n : TriggerNode) (rest : List (Script × TriggerNode)) :
    tour w t d ((s, n) :: rest) =
      (⟨s, n, (reach w s n t d).1, (reach w s n t d).2.deferrals.drop w.deferrals.length⟩ ::
        (tour (reach w s n t d).2 t d rest).1, (tour (reach w s n t d).2 t d rest).2) := rfl

def destinations (t : Target) (d : TriggerData) (ss : List Script) : List (Script × TriggerNode) :=
  ss.flatMap fun s => (reached s t d).map fun n => (s, n)

theorem tour_nodes (w : World Announcement) (t : Target) (d : TriggerData)
    (ps : List (Script × TriggerNode)) :
    (tour w t d ps).1.map (fun v => (v.script, v.node)) = ps := by
  induction ps generalizing w with
  | nil => rfl
  | cons p rest ih => exact congrArg (p :: ·) (ih _)

theorem tour_append (w : World Announcement) (t : Target) (d : TriggerData)
    (ps qs : List (Script × TriggerNode)) :
    tour w t d (ps ++ qs) = ((tour w t d ps).1 ++ (tour (tour w t d ps).2 t d qs).1,
      (tour (tour w t d ps).2 t d qs).2) := by
  induction ps generalizing w with
  | nil => rfl
  | cons p rest ih =>
    obtain ⟨s, n⟩ := p
    rw [List.cons_append, tour_cons, tour_cons, ih]
    rfl

theorem reachEach_eq (w : World Announcement) (s : Script) (t : Target) (d : TriggerData)
    (ns : List TriggerNode) :
    reachEach w s t d ns = ((tour w t d (ns.map fun n => (s, n))).1.map (·.future),
      (tour w t d (ns.map fun n => (s, n))).2) := by
  induction ns generalizing w with
  | nil => rfl
  | cons n rest ih =>
    have first : reachEach w s t d (n :: rest) = ((reach w s n t d).1 ::
      (reachEach (reach w s n t d).2 s t d rest).1, (reachEach (reach w s n t d).2 s t d rest).2) :=
      rfl
    rw [first, ih, List.map_cons, tour_cons]
    rfl

theorem visit_eq (w : World Announcement) (t : Target) (d : TriggerData) (ss : List Script) :
    visit w t d ss = ((tour w t d (destinations t d ss)).1.map (·.future),
      (tour w t d (destinations t d ss)).2) := by
  induction ss generalizing w with
  | nil => rfl
  | cons s rest ih =>
    have first : visit w t d (s :: rest) =
      ((reachEach w s t d (reached s t d)).1 ++
        (visit (reachEach w s t d (reached s t d)).2 t d rest).1,
        (visit (reachEach w s t d (reached s t d)).2 t d rest).2) := rfl
    have split : destinations t d (s :: rest) =
      (reached s t d).map (fun n => (s, n)) ++ destinations t d rest := rfl
    rw [first, ih, reachEach_eq, split, tour_append, List.map_append]

/-- The future that comes of a node, before its announcement is registered. -/
def answer (w : World Announcement) (s : Script) (n : TriggerNode) (t : Target) (d : TriggerData) :
    FutureId × World Announcement :=
  if s.settings.executeActions then w.fire n t d
  else (w.testTrigger n t d).2.completed (w.testTrigger n t d).1

theorem reach_eq (w : World Announcement) (s : Script) (n : TriggerNode) (t : Target)
    (d : TriggerData) :
    reach w s n t d = ((answer w s n t d).1, (answer w s n t d).2.onComplete (answer w s n t d).1
      (.note ⟨s.id, n.identifier, t.id, d, s.settings.executeActions⟩)) := by
  rw [reach, answer]

/-- Visits one after the other: a node is fired, or only asked where the actions of its script are
off, and it is announced when the future of that completes. -/
inductive Visited (t : Target) (d : TriggerData) :
    World Announcement → List Visit → World Announcement → Prop
  | nothing (w : World Announcement) : Visited t d w [] w
  | fired {w w' : World Announcement} {x : Visit} {rest : List Visit}
      (runs : x.script.settings.executeActions = true) (future : x.future = (w.fire x.node t d).1)
      (tasks : x.tasks = (w.fire x.node t d).2.deferrals.drop w.deferrals.length)
      (behind : Visited t d
        ((w.fire x.node t d).2.onComplete x.future (.note (x.note t d).2)) rest w') :
      Visited t d w (x :: rest) w'
  | asked {w w' : World Announcement} {x : Visit} {rest : List Visit}
      (runs : x.script.settings.executeActions = false)
      (future : x.future =
        ((w.testTrigger x.node t d).2.completed (w.testTrigger x.node t d).1).1)
      (tasks : x.tasks = [])
      (behind : Visited t d
        (((w.testTrigger x.node t d).2.completed (w.testTrigger x.node t d).1).2.onComplete x.future
          (.note (x.note t d).2)) rest w') :
      Visited t d w (x :: rest) w'

theorem tour_visited (w : World Announcement) (t : Target) (d : TriggerData)
    (ps : List (Script × TriggerNode)) : Visited t d w (tour w t d ps).1 (tour w t d ps).2 := by
  induction ps generalizing w with
  | nil => exact .nothing w
  | cons p rest ih =>
    obtain ⟨s, n⟩ := p
    have behind := ih (reach w s n t d).2
    rw [tour_cons]
    cases runs : s.settings.executeActions with
    | true =>
      have here : answer w s n t d = w.fire n t d := if_pos runs
      rw [reach_eq, here] at behind ⊢
      exact .fired runs rfl rfl behind
    | false =>
      have here : answer w s n t d =
          (w.testTrigger n t d).2.completed (w.testTrigger n t d).1 :=
        if_neg (Bool.eq_false_iff.mp runs)
      have quiet : Quiet w (w.testTrigger n t d).2 := quiet_perform (m := .rehearse n t d) rfl rfl
      rw [reach_eq, here] at behind ⊢
      refine .asked runs rfl (List.drop_eq_nil_of_le (Nat.le_of_eq ?_)) behind
      exact congrArg List.length quiet.deferrals

/-- A node that is only asked has a future with the outcome of its dry run. -/
theorem answer_grows (wired : w.futures.Wired ways []) (s : Script) (n : TriggerNode) (t : Target)
    (d : TriggerData) :
    ∃ e more new, Grows w (answer w s n t d).2 ways more new [(answer w s n t d).1] [e] ∧
      (s.settings.executeActions = false → e = .given (w.testTrigger n t d).1) := by
  rw [answer]
  cases s.settings.executeActions with
  | true =>
    obtain ⟨f, e, more, new, answered, grows⟩ :=
      call_grows (m := .fire n t d) rfl wired
    cases answered
    exact ⟨e, more, new, grows, nofun⟩
  | false =>
    have quiet : Quiet w (w.testTrigger n t d).2 := quiet_perform (m := .rehearse n t d) rfl rfl
    rw [← quiet.futures] at wired
    exact ⟨_, _, _, (grows_completed wired _).behind quiet, fun _ => rfl⟩

theorem answer_tracks (tells : w.futures.Tells told ns []) (s : Script) (n : TriggerNode)
    (t : Target) (d : TriggerData) :
    Tracks w (answer w s n t d).2 told ns [(answer w s n t d).1] := by
  rw [answer]
  cases s.settings.executeActions with
  | true =>
    obtain ⟨fs, es, w', course, performed, answered⟩ := call_course (m := .fire n t d) rfl w
    have tracks := (course.tracks tells).all
    have own := Answer.future.inj (Option.some.inj answered)
    rw [← performed, ← own] at tracks
    exact tracks
  | false =>
    have quiet : Quiet w (w.testTrigger n t d).2 := quiet_perform (m := .rehearse n t d) rfl rfl
    rw [← quiet.futures] at tells
    exact (tracks_completed tells _).behind quiet

theorem reach_grows (wired : w.futures.Wired ways []) (s : Script) (n : TriggerNode) (t : Target)
    (d : TriggerData) :
    ∃ e more new, Grows w (reach w s n t d).2 ways more new [(reach w s n t d).1] [e] ∧
      (s.settings.executeActions = false → e = .given (w.testTrigger n t d).1) := by
  obtain ⟨e, more, new, grows, asked⟩ := answer_grows wired s n t d
  rw [reach_eq]
  exact ⟨e, more, new, grows.note (List.mem_singleton_self _) _, asked⟩

theorem reach_tells (tells : w.futures.Tells told ns []) (s : Script) (n : TriggerNode)
    (t : Target) (d : TriggerData) :
    (reach w s n t d).2.futures.Tells told (ns ++ [((reach w s n t d).1,
      ⟨s.id, n.identifier, t.id, d, s.settings.executeActions⟩)]) [] := by
  have tracks := answer_tracks tells s n t d
  rw [reach_eq]
  exact tracks.tells.onComplete (tracks.known _ (List.mem_singleton_self _))
    (Futures.admits_of_caller rfl (List.forall_mem_nil _))

theorem tour_grows (wired : w.futures.Wired ways []) (t : Target) (d : TriggerData)
    (ps : List (Script × TriggerNode)) :
    ∃ es more new, Grows w (tour w t d ps).2 ways more new ((tour w t d ps).1.map (·.future)) es ∧
      ∀ v ∈ (tour w t d ps).1, (tour w t d ps).2.Awaits (ways ++ more) v.future v.tasks := by
  induction ps generalizing w ways with
  | nil => exact ⟨_, _, _, .nothing wired, List.forall_mem_nil _⟩
  | cons p rest ih =>
    obtain ⟨s, n⟩ := p
    obtain ⟨e, more, new, first, _⟩ := reach_grows wired s n t d
    -- Later visits put off tasks of their own, and none that the first future waits for.
    obtain ⟨es, more', new', behind, awaits⟩ := ih first.wired
    rw [List.append_assoc] at awaits
    refine ⟨_, _, _, first.append behind, List.forall_mem_cons.mpr ⟨?_, awaits⟩⟩
    rw [← List.append_assoc]
    exact first.awaits.grow behind

theorem tour_tells (tells : w.futures.Tells told ns []) (t : Target) (d : TriggerData)
    (ps : List (Script × TriggerNode)) :
    (tour w t d ps).2.futures.Tells told (ns ++ (tour w t d ps).1.map (Visit.note t d)) [] := by
  induction ps generalizing w ns with
  | nil =>
    rw [tour, List.map_nil, List.append_nil]
    exact tells
  | cons p rest ih =>
    obtain ⟨s, n⟩ := p
    have behind := ih (reach_tells tells s n t d)
    rw [List.append_assoc] at behind
    exact behind

theorem tour_all (engaged : w.Engaged ways) (t : Target) (d : TriggerData)
    (ps : List (Script × TriggerNode)) :
    let fs := (tour w t d ps).1.map (·.future)
    let done := (tour w t d ps).2.all fs
    ∃ ways', done.2.Engaged ways' ∧ Conjoined ways' done.1 fs ∧
      ∀ v ∈ (tour w t d ps).1, done.2.Awaits ways' v.future v.tasks := by
  intro fs done
  obtain ⟨es, more, new, grows, awaits⟩ := tour_grows engaged.wired t d ps
  obtain ⟨more', joined, reads, parts⟩ := engaged.join grows
  have tasks : done.2.tasks = (tour w t d ps).2.tasks := rfl
  exact ⟨_, joined, ⟨es, reads, parts⟩, fun v member => (awaits v member).later tasks more'⟩

theorem tour_all_tells (tells : w.futures.Tells told ns []) (engaged : w.Engaged ways)
    (t : Target) (d : TriggerData) (ps : List (Script × TriggerNode)) :
    ((tour w t d ps).2.all ((tour w t d ps).1.map (·.future))).2.futures.Tells told
      (ns ++ (tour w t d ps).1.map (Visit.note t d)) [] := by
  obtain ⟨es, more, new, grows, _⟩ := tour_grows engaged.wired t d ps
  refine (tour_tells tells t d ps).all fun f member => ?_
  obtain ⟨k, inside, rfl⟩ := List.mem_iff_getElem.mp member
  have known := (grows.reads.get inside (grows.reads.length_eq ▸ inside)).known
  rw [grows.wired.size] at known
  exact known

end Engine

end Cuescript
