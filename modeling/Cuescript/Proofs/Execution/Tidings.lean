import Cuescript.Proofs.Execution.Waiting
import Cuescript.Proofs.Futures.Notes

/-!
What a run tells of its futures. Calls and tasks register no notes; they make futures, join them and
complete them. Main statement: across every move of the runtime, what has been heard is told by the
notes that there are and by the outcomes of their futures.
-/
namespace Cuescript

variable {ν : Type}

namespace Futures

variable {s : Futures ν}

theorem knows_completed (s : Futures ν) (o : Outcome) :
    (s.completed o).2.Knows (s.completed o).1 := by
  simp [completed, Knows]

theorem knows_pending (s : Futures ν) : s.pending.2.Knows s.pending.1 := by
  simp [pending, Knows]

theorem knows_all {fs : List FutureId} (known : ∀ f ∈ fs, s.Knows f) :
    (s.all fs).2.Knows (s.all fs).1 := by
  match fs with
  | [] => exact knows_completed s .empty
  | [f] => exact known f (List.mem_singleton_self f)
  | f :: g :: rest =>
    refine (keeps_listenAll _ _ 0 (f :: g :: rest)).knows ?_
    rw [Knows, List.length_append]
    exact Nat.lt_succ_self _

end Futures

namespace World

variable {t : Target} {c : Context} {w w' : World ν} {told : List (ν × Outcome)}
  {ns : List (FutureId × ν)} {fs : List FutureId} {es : List Prospect}

/-- From one world to another the notes are kept track of, and the futures `fs` are there then. -/
structure Tracks (w w' : World ν) (told : List (ν × Outcome)) (ns : List (FutureId × ν))
    (fs : List FutureId) : Prop where
  tells : w'.futures.Tells told ns []
  keeps : w.futures.Keeps w'.futures
  known : ∀ f ∈ fs, w'.futures.Knows f

variable {w₁ : World ν} {f : FutureId} {gs : List FutureId}

theorem Tracks.cons (first : Tracks w w₁ told ns [f]) (rest : Tracks w₁ w' told ns fs) :
    Tracks w w' told ns (f :: fs) := by
  refine ⟨rest.tells, first.keeps.trans rest.keeps, List.forall_mem_cons.mpr ⟨?_, rest.known⟩⟩
  exact rest.keeps.knows (first.known f (List.mem_singleton_self f))

theorem Tracks.behind (tracks : Tracks w₁ w' told ns fs) (quiet : Quiet w w₁) :
    Tracks w w' told ns fs :=
  { tracks with keeps := quiet.futures ▸ tracks.keeps }

theorem tracks_completed (tells : w.futures.Tells told ns []) (o : Outcome) :
    Tracks w (w.completed o).2 told ns [(w.completed o).1] :=
  ⟨tells.completed o, Futures.keeps_completed w.futures o,
    List.forall_mem_singleton.mpr (Futures.knows_completed w.futures o)⟩

theorem tracks_defer (tells : w.futures.Tells told ns []) (n : ActionNode) (t : Target)
    (c : Context) (claim : Claim) :
    Tracks w (w.defer n t c claim).2 told ns [(w.defer n t c claim).1] :=
  ⟨tells.pending, Futures.keeps_pending w.futures,
    List.forall_mem_singleton.mpr (Futures.knows_pending w.futures)⟩

theorem Tracks.all (tracks : Tracks w w' told ns fs) :
    Tracks w (w'.all fs).2 told ns [(w'.all fs).1] :=
  ⟨tracks.tells.all tracks.known, tracks.keeps.trans (Futures.keeps_all ..),
    List.forall_mem_singleton.mpr (Futures.knows_all tracks.known)⟩

theorem Course.tracks {errands : List Errand} (course : Course t c w errands fs es w')
    (tells : w.futures.Tells told ns []) : Tracks w w' told ns fs := by
  induction course with
  | done w => exact ⟨tells, .refl _, List.forall_mem_nil _⟩
  | @quits _ _ _ _ _ o _ _ quits _ behind =>
    rw [← quits.quiet.futures] at tells
    have first := tracks_completed tells o
    exact (first.cons (behind first.tells)).behind quits.quiet
  | @deferred w _ n _ _ _ _ _ _ behind =>
    have quiet := quiet_within w n t c
    rw [← quiet.futures] at tells
    have first := tracks_defer tells n t c (n.step.claim t)
    exact (first.cons (behind first.tells)).behind quiet
  | @entered w _ n _ _ _ _ _ _ behind =>
    have quiet := quiet_within w n t c
    rw [← quiet.futures] at tells
    exact (behind tells).behind quiet
  | @failed w _ n claim _ _ _ _ _ behind =>
    have quiet := quiet_afterBody w n t c claim
    rw [← quiet.futures] at tells
    have first := tracks_completed tells (w.runBody n.step t c).1
    exact (first.cons (behind first.tells)).behind quiet
  | @ran w _ _ n claim _ _ _ _ _ _ _ _ below behind =>
    have quiet := quiet_afterBody w n t c claim
    rw [← quiet.futures] at tells
    have own := tracks_completed tells (w.runBody n.step t c).1
    have first := (own.cons (below own.tells)).all
    exact (first.cons (behind first.tells)).behind quiet
  | @fired w _ _ n d _ _ _ _ _ _ _ _ _ below behind =>
    have quiet := quiet_afterFiring w n t d
    rw [← quiet.futures] at tells
    have own := tracks_completed tells (w.afterFiring n t d).1
    have first := (own.cons (below own.tells)).all
    exact (first.cons (behind first.tells)).behind quiet

variable {ways : Wiring}

theorem tells_runTask {i : Nat} (engaged : w.Engaged ways) (tells : w.futures.Tells told ns []) :
    (w.runTask i).futures.Tells told ns [] := by
  cases found : w.tasks[i]? with
  | none =>
    rw [runTask, found]
    exact tells
  | some task =>
    obtain ⟨f, e, w', course, ran⟩ := runTask_course found
    have tracks := course.tracks tells
    have task_known : w.futures.Knows task.done := by
      have way := engaged.task_known (List.mem_of_getElem? found)
      have inside := (List.getElem?_eq_some_iff.mp way).1
      rw [engaged.wired.size] at inside
      exact inside
    have admits : w'.futures.Admits (.relay task.done) := by
      refine Futures.admits_of_caller rfl fun g target => ?_
      obtain rfl := List.mem_singleton.mp target
      exact tracks.keeps.knows task_known
    have relayed := tracks.tells.onComplete (tracks.known f (List.mem_singleton_self f)) admits
    have silent : ns ++ Futures.noteOn f (.relay task.done : Listener ν) = ns :=
      List.append_nil ns
    rw [silent] at relayed
    rw [ran]
    exact relayed

theorem tells_perform (engaged : w.Engaged ways) (tells : w.futures.Tells told ns []) (m : Move) :
    (w.perform m).futures.Tells told ns [] := by
  cases is : m.call? with
  | some call =>
    obtain ⟨fs, es, w', course, performed, _⟩ := call_course is w
    rw [performed]
    exact (course.tracks tells).all.tells
  | none =>
    cases running : w.running? m with
    | none =>
      rw [(quiet_perform is running).futures]
      exact tells
    | some g =>
      cases m with
      | run index => exact tells_runTask engaged tells
      | _ => cases running

theorem tells_play (engaged : w.Engaged ways) (tells : w.futures.Tells told ns [])
    (ms : List Move) : (w.play ms).futures.Tells told ns [] := by
  induction ms generalizing w ways with
  | nil => exact tells
  | cons m rest ih =>
    obtain ⟨_, next, _⟩ := engaged.perform m
    exact ih next (tells_perform engaged tells m)

end World

end Cuescript
