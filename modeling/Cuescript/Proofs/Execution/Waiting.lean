import Cuescript.Proofs.Execution.Claims
import Cuescript.Proofs.Execution.Lifecycle
import Cuescript.Proofs.Execution.Prospects

/-!
What is open between two calls. The claims that stand are those of the tasks that wait, and a
future that a call has returned waits for the tasks that were put off on behalf of the call, by the
call itself or by another task on its behalf. Main statement: whatever a run does, nothing else is
marked in the store and no other future is incomplete; so when no task is left, nothing is.
-/
namespace Cuescript

variable {ν : Type}

namespace World

variable {allowed : Allowance} {w w' : World ν}

/-- The claims that stand: the one in hand, and those of the waiting tasks. -/
def standing (h : Hold) (w : World ν) : List Claim := h.claim?.toList ++ w.tasks.map (·.claim)

abbrev Marked (a : Hold × World ν) : Prop := a.2.store.Marks (standing a.1 a.2)

theorem marks_of_records {s s' : Store} {cs : List Claim} (marks : s.Marks cs)
    (same : s'.records = s.records) : s'.Marks cs :=
  marks.congr fun p => by rw [Store.record, Store.record, same]

theorem Step.marked {a b : Hold × World ν} (step : Step allowed a b) (marked : Marked a) :
    Marked b := by
  cases step with
  | futures | matched | clock => exact marked
  | asked h w n t c =>
    rw [Marked, standing, tasks_test]
    exact marks_of_records marked (records_test w n t c)
  | denied w i t p d _ is =>
    rw [Marked, claim_refused is]
    rw [claim_fst] at is
    exact Store.Marks.refuse marked is
  | admitted w i t p c _ is =>
    rw [Marked, claim_granted is]
    rw [claim_fst] at is
    exact Store.Marks.grant marked is
  | released w c => exact Store.Marks.release marked
  | deferred w n t c _ =>
    refine marked.perm ?_
    simp only [standing, defer, enter, List.map_append, List.map_cons, List.map_nil]
    exact (List.perm_append_singleton _ _).symm
  | resumed w before task after _ is =>
    refine marked.perm ?_
    simp only [standing, takeUp, enter, is, List.map_append, List.map_cons]
    exact List.perm_middle
  | ran h w s t c inHand _ =>
    rw [Marked, standing, inHand] at marked
    exact Store.Marks.commit marked w.clock
  | failed h w s t c inHand _ =>
    rw [Marked, standing, inHand] at marked
    exact Store.Marks.release marked
  | fired w i t p => exact Store.Marks.commit marked w.clock

/-- Between two calls the marks are those of the waiting tasks, each with the claim of its node. -/
structure Orderly (w : World ν) : Prop where
  tasks : ∀ task ∈ w.tasks, task.Obeys fun _ _ => True
  marks : w.store.Marks (w.tasks.map (·.claim))

theorem orderly_start (clock : Instant) (deferring : Bool) :
    (start clock deferring : World ν).Orderly := ⟨nofun, fun _ => rfl⟩

theorem obeys_any (m : Move) : m.Obeys fun _ _ => True := by
  have nodes : ∀ n : ActionNode, n.Obeys fun _ _ => True := fun _ _ _ => trivial
  have triggers : ∀ n : TriggerNode, n.Obeys fun _ _ => True :=
    fun n => ⟨trivial, fun _ _ => trivial⟩
  cases m with
  | execute f => exact ⟨fun n _ => nodes n, fun n _ => triggers n⟩
  | trigger f => exact ⟨fun n _ => nodes n, fun n _ => triggers n⟩
  | act n => exact nodes n
  | fire n => exact triggers n
  | test | rehearse | clock | run | reset | clear => trivial

theorem Orderly.perform (orderly : w.Orderly) (m : Move) : (w.perform m).Orderly := by
  cases forgets : m.forgets with
  | false =>
    have steps := perform_steps (obeys_any m) forgets orderly.tasks
    obtain ⟨marks, tasks⟩ :=
      steps_induction (fun _ _ step => step.marked) steps orderly.tasks orderly.marks
    exact ⟨tasks, marks⟩
  | true =>
    cases m with
    | reset target => exact ⟨orderly.tasks, orderly.marks.resetTarget target⟩
    | clear => exact ⟨orderly.tasks, orderly.marks.clear⟩
    | test | execute | act | trigger | fire | rehearse | clock | run => cases forgets

theorem Orderly.play (orderly : w.Orderly) (ms : List Move) : (w.play ms).Orderly := by
  induction ms generalizing w with
  | nil => exact orderly
  | cons m rest ih => exact ih (orderly.perform m)

theorem Orderly.inFlight_iff (orderly : w.Orderly) (p : Pair) :
    (w.store.record p).inFlight = true ↔ ∃ task ∈ w.tasks,
      (task.node.id, task.target.id) = p ∧ task.node.step.config.policy.isActive = true := by
  rw [orderly.marks.inFlight_iff, List.mem_map]
  refine exists_congr fun task => and_congr_right fun member => ?_
  rw [(orderly.tasks task member).2, ActionStep.claim, Claim.of, Claim.mk.injEq]
  rfl

def scheduled (w : World ν) (m : Move) : List FutureId :=
  (w.perform m).deferrals.drop w.deferrals.length

def running? (w : World ν) : Move → Option FutureId
  | .run index => (w.tasks[index]?).map (·.done)
  | _ => none

/-- The tasks on behalf of a call after one more move: what one of them puts off is one as well. -/
def inherit (w : World ν) (on : List FutureId) (m : Move) : List FutureId :=
  if (w.running? m).any (· ∈ on) then on ++ w.scheduled m else on

def behalf (w : World ν) (on : List FutureId) : List Move → List FutureId
  | [] => on
  | m :: rest => (w.perform m).behalf (w.inherit on m) rest

def onBehalf (w : World ν) (call : Move) (after : List Move) : List FutureId :=
  (w.perform call).behalf (w.scheduled call) after

/-- Futures, tasks and wiring agree on which tasks are still to run. -/
structure Engaged (w : World ν) (ways : Wiring) : Prop where
  wired : w.futures.Wired ways []
  tasks : (w.tasks.map (·.done)).Perm (ways.tasksFrom 0)

structure Awaits (w : World ν) (ways : Wiring) (f : FutureId) (on : List FutureId) : Prop where
  known : ∀ g ∈ on, g.number < ways.length
  reads : ∃ e, ways.Reads f e ∧ ∀ task ∈ w.tasks, task.done ∈ e.tasks ↔ task.done ∈ on

variable {ways more : Wiring} {new : List Task} {f : FutureId} {on : List FutureId}
  {fs : List FutureId} {es : List Prospect} {task : Task} {i : Nat}

theorem Engaged.start (clock : Instant) (deferring : Bool) :
    (World.start clock deferring : World ν).Engaged [] :=
  ⟨⟨rfl, nofun, nofun, nofun, nofun⟩, .refl _⟩

theorem Engaged.mem_tasks (engaged : w.Engaged ways) (g : FutureId) :
    g ∈ w.tasks.map (·.done) ↔ ways[g.number]? = some .task := by
  rw [engaged.tasks.mem_iff, Wiring.mem_tasksFrom]
  simp

theorem Engaged.task_known (engaged : w.Engaged ways) (member : task ∈ w.tasks) :
    ways[task.done.number]? = some .task :=
  (engaged.mem_tasks task.done).mp (List.mem_map_of_mem member)

theorem Engaged.isComplete_iff (engaged : w.Engaged ways) (awaits : w.Awaits ways f on) :
    w.futures.isComplete f = false ↔ ∃ task ∈ w.tasks, task.done ∈ on := by
  obtain ⟨e, reads, waits⟩ := awaits.reads
  rw [← Bool.not_eq_true, engaged.wired.isComplete_iff reads]
  constructor
  · intro some
    obtain ⟨g, member⟩ := List.exists_mem_of_ne_nil _ some
    obtain ⟨task, waiting, rfl⟩ :=
      List.mem_map.mp ((engaged.mem_tasks g).mpr (reads.task_of_mem member))
    exact ⟨task, waiting, (waits task waiting).mp member⟩
  · rintro ⟨task, waiting, member⟩
    exact List.ne_nil_of_mem ((waits task waiting).mpr member)

theorem Engaged.quiet (engaged : w.Engaged ways) (quiet : Quiet w w') : w'.Engaged ways := by
  refine ⟨?_, ?_⟩
  · rw [quiet.futures]
    exact engaged.wired
  · rw [quiet.tasks]
    exact engaged.tasks

theorem Engaged.grow (engaged : w.Engaged ways) (grows : Grows w w' ways more new fs es) :
    w'.Engaged (ways ++ more) := by
  refine ⟨grows.wired, ?_⟩
  rw [grows.tasks, List.map_append, Wiring.tasksFrom_append, Nat.zero_add, grows.opened]
  exact engaged.tasks.append_right _

theorem Grows.fresh (grows : Grows w w' ways more new fs es) (member : task ∈ new) :
    ways.length ≤ task.done.number ∧ task.done.number < (ways ++ more).length := by
  have opened : task.done ∈ more.tasksFrom ways.length := by
    rw [grows.opened]
    exact List.mem_map_of_mem member
  obtain ⟨beyond, is⟩ := Wiring.mem_tasksFrom.mp opened
  have inside := (List.getElem?_eq_some_iff.mp is).1
  rw [List.length_append]
  omega

theorem Awaits.quiet (awaits : w.Awaits ways f on) (quiet : Quiet w w') : w'.Awaits ways f on := by
  refine ⟨awaits.known, ?_⟩
  rw [quiet.tasks]
  exact awaits.reads

theorem Awaits.grow (awaits : w.Awaits ways f on) (grows : Grows w w' ways more new fs es) :
    w'.Awaits (ways ++ more) f on := by
  obtain ⟨e, reads, waits⟩ := awaits.reads
  refine ⟨fun g member => ?_, e, reads.append more, fun task member => ?_⟩
  · rw [List.length_append]
    exact Nat.lt_add_right _ (awaits.known g member)
  · rw [grows.tasks] at member
    rcases List.mem_append.mp member with old | added
    · exact waits task old
    · -- A task that has just been put off is in neither.
      have fresh := (grows.fresh added).1
      constructor
      · intro within
        have known := (List.getElem?_eq_some_iff.mp (reads.task_of_mem within)).1
        omega
      · intro within
        have known := awaits.known _ within
        omega

theorem Grows.tasks_prospect {e : Prospect} (grows : Grows w w' ways more new [f] [e]) :
    e.tasks = new.map (·.done) := by
  rw [← grows.prospects, List.flatMap_singleton]

theorem Grows.awaits {e : Prospect}
    (grows : Grows w w' ways more new [f] [e]) :
    w'.Awaits (ways ++ more) f (w'.deferrals.drop w.deferrals.length) := by
  rw [grows.deferrals, List.drop_left]
  refine ⟨fun g member => ?_, e, (List.forall₂_cons.mp grows.reads).1, fun task _ => by
    rw [grows.tasks_prospect]⟩
  obtain ⟨task, added, rfl⟩ := List.mem_map.mp member
  exact (grows.fresh added).2

theorem tasksFrom_set {g : FutureId} (is : ways[g.number]? = some .task) (h : FutureId) :
    (ways.tasksFrom 0).Perm (g :: Wiring.tasksFrom 0 (ways.set g.number (.relay h))) := by
  have inside := (List.getElem?_eq_some_iff.mp is).1
  have gone : g ∉ Wiring.tasksFrom 0 (ways.set g.number (.relay h)) := by
    rw [Wiring.mem_tasksFrom, Nat.sub_zero, List.getElem?_set_self inside]
    rintro ⟨_, ⟨⟩⟩
  rw [List.perm_ext_iff_of_nodup (Wiring.nodup_tasksFrom _ _)
    (List.nodup_cons.mpr ⟨gone, Wiring.nodup_tasksFrom _ _⟩)]
  intro f
  rw [List.mem_cons, Wiring.mem_tasksFrom, Wiring.mem_tasksFrom, Nat.sub_zero]
  by_cases same : f = g
  · subst same
    simp [is]
  · have apart : g.number ≠ f.number := fun number => same (congrArg FutureId.mk number.symm)
    simp [same, List.getElem?_set_ne apart]

theorem deferrals_takeUp (w : World ν) (before : List Task) (task : Task) (after : List Task) :
    (w.takeUp before task after).deferrals = w.deferrals :=
  deferrals_enter { w with tasks := before ++ after } _ _ [] rfl

/-- A task is run: its future takes over that of what it does, which is as for a call. -/
theorem runTask_grows (found : w.tasks[i]? = some task) (wired : w.futures.Wired ways []) :
    ∃ f e more new w', Grows (w.takeUp (w.tasks.take i) task (w.tasks.drop (i + 1))) w' ways more
      new [f] [e] ∧ w.runTask i = w'.onComplete f (.relay task.done) := by
  obtain ⟨f, e, w', course, ran⟩ := runTask_course found
  obtain ⟨more, new, grows⟩ := course.grows wired
  exact ⟨f, e, more, new, w', grows, ran⟩

theorem tasks_around {w : World ν} (found : w.tasks[i]? = some task) :
    w.tasks.take i ++ task :: w.tasks.drop (i + 1) = w.tasks := by
  obtain ⟨inside, rfl⟩ := List.getElem?_eq_some_iff.mp found
  rw [List.getElem_cons_drop, List.take_append_drop]

theorem tasks_perm {w : World ν} (found : w.tasks[i]? = some task) :
    w.tasks.Perm (task :: (w.tasks.take i ++ w.tasks.drop (i + 1))) :=
  (List.Perm.of_eq (tasks_around found).symm).trans List.perm_middle

section Run

variable {e : Prospect} (engaged : w.Engaged ways) (found : w.tasks[i]? = some task)
  (grows : Grows (w.takeUp (w.tasks.take i) task (w.tasks.drop (i + 1))) w' ways more new [f] [e])

include engaged found

theorem Engaged.still (more : Wiring) : (ways ++ more)[task.done.number]? = some .task := by
  have known := engaged.task_known (List.mem_of_getElem? found)
  rw [List.getElem?_append_left (List.getElem?_eq_some_iff.mp known).1]
  exact known

theorem Engaged.apart {other : Task}
    (member : other ∈ w.tasks.take i ++ w.tasks.drop (i + 1)) : other.done ≠ task.done := by
  have distinct := engaged.tasks.nodup_iff.mpr (Wiring.nodup_tasksFrom _ _)
  rw [((tasks_perm found).map _).nodup_iff, List.map_cons, List.nodup_cons] at distinct
  intro same
  exact distinct.1 (same ▸ List.mem_map_of_mem member)

include grows

theorem Engaged.run : (w'.onComplete f (.relay task.done)).Engaged
    ((ways ++ more).set task.done.number (.relay f)) := by
  have still := engaged.still found more
  refine ⟨grows.wired.relay still (List.forall₂_cons.mp grows.reads).1.known, ?_⟩
  have before : (w.tasks.map (·.done) ++ new.map (·.done)).Perm ((ways ++ more).tasksFrom 0) := by
    rw [Wiring.tasksFrom_append, Nat.zero_add, grows.opened]
    exact engaged.tasks.append_right _
  have others := before.trans (tasksFrom_set still f)
  refine (List.perm_cons task.done).mp (.trans ?_ others)
  show (task.done :: w'.tasks.map (·.done)).Perm _
  rw [grows.tasks, ← List.map_cons, ← List.cons_append, List.map_append]
  exact (((tasks_perm found).map _).symm).append_right _

theorem Engaged.reads_run {g : FutureId} {d : Prospect} (reads : ways.Reads g d) :
    Wiring.Reads ((ways ++ more).set task.done.number (.relay f)) g (d.replace task.done e) := by
  have known := engaged.task_known (List.mem_of_getElem? found)
  have inside := (List.getElem?_eq_some_iff.mp known).1
  have others : task.done ∉ e.tasks := by
    rw [grows.tasks_prospect, List.mem_map]
    rintro ⟨other, added, same⟩
    have beyond := (grows.fresh added).1
    rw [same] at beyond
    omega
  have still := engaged.still found more
  exact (reads.append more).replace still
    ((List.forall₂_cons.mp grows.reads).1.set still others (.relay f))

/-- When a task runs, those that wait for it wait for what it puts off instead. -/
theorem Awaits.run {g : FutureId} (awaits : w.Awaits ways g on) :
    (w'.onComplete f (.relay task.done)).Awaits ((ways ++ more).set task.done.number (.relay f)) g
      (if task.done ∈ on then on ++ new.map (·.done) else on) := by
  obtain ⟨d, reads, waits⟩ := awaits.reads
  have waiting := List.mem_of_getElem? found
  have fresh : ∀ other ∈ new, ∀ g : FutureId, g.number < ways.length → other.done ≠ g := by
    rintro other added _ inside rfl
    have beyond := (grows.fresh added).1
    omega
  refine ⟨fun h member => ?_, d.replace task.done e, engaged.reads_run found grows reads,
    fun other member => ?_⟩
  · rw [List.length_set, List.length_append]
    split at member
    · rcases List.mem_append.mp member with member | member
      · exact Nat.lt_add_right _ (awaits.known h member)
      · obtain ⟨other, added, rfl⟩ := List.mem_map.mp member
        rw [← List.length_append]
        exact (grows.fresh added).2
    · exact Nat.lt_add_right _ (awaits.known h member)
  · have member : other ∈ w'.tasks := member
    rw [grows.tasks] at member
    rw [Prospect.mem_tasks_replace, grows.tasks_prospect]
    rcases List.mem_append.mp member with old | added
    · -- A task that waited before.
      have remains : other ∈ w.tasks :=
        (tasks_perm found).mem_iff.mpr (List.mem_cons_of_mem _ old)
      have inside := (List.getElem?_eq_some_iff.mp (engaged.task_known remains)).1
      have absent : other.done ∉ new.map (·.done) := by
        rw [List.mem_map]
        rintro ⟨another, added, same⟩
        exact fresh another added _ inside same
      have apart := engaged.apart found old
      simp only [absent, apart, waits other remains, ne_eq, not_false_eq_true, and_true, and_false,
        or_false]
      split
      · rw [List.mem_append, or_iff_left absent]
      · exact Iff.rfl
    · -- A task that has just been put off.
      have first : other.done ∉ d.tasks := fun within =>
        fresh other added _ (List.getElem?_eq_some_iff.mp (reads.task_of_mem within)).1 rfl
      have absent : other.done ∉ on := fun within => fresh other added _ (awaits.known _ within) rfl
      have present : other.done ∈ new.map (·.done) := List.mem_map_of_mem added
      simp only [first, present, waits task waiting, false_and, false_or, and_true]
      split
      · rename_i inside
        simp [inside, present]
      · rename_i outside
        simp [outside, absent]

end Run

theorem quiet_perform {m : Move} (other : m.call? = none) (idle : w.running? m = none) :
    Quiet w (w.perform m) := by
  cases m with
  | test f t c => exact quiet_testAll w f.requirements t c
  | rehearse n t d =>
    rw [perform, testTrigger]
    split
    · exact .refl w
    · dsimp only
      split
      · exact quiet_matchData w n t d
      · exact (quiet_matchData w n t d).trans (quiet_testAll _ n.guards t _)
  | run index =>
    rw [perform, runTask, Option.map_eq_none_iff.mp idle]
    exact .refl w
  | clock | reset | clear => exact ⟨rfl, rfl, rfl, rfl⟩
  | execute | act | trigger | fire => cases other

theorem answer?_ne_future {m : Move} (other : m.call? = none) (w : World ν) (f : FutureId) :
    w.answer? m ≠ some (.future f) := by
  intro is
  cases m with
  | test | rehearse | clock | run | reset | clear => cases is
  | execute | act | trigger | fire => cases other

theorem inherit_of_idle {m : Move} (idle : w.running? m = none) (on : List FutureId) :
    w.inherit on m = on := by
  rw [inherit, idle]
  exact if_neg Bool.false_ne_true

theorem perform_cases (wired : w.futures.Wired ways []) (m : Move) :
    (w.running? m = none ∧ ∃ f e more new, w.answer? m = some (.future f) ∧
        Grows w (w.perform m) ways more new [f] [e]) ∨
      (w.running? m = none ∧ (∀ f, w.answer? m ≠ some (.future f)) ∧ Quiet w (w.perform m)) ∨
        ∃ i task f e more new w', m = .run i ∧ w.tasks[i]? = some task ∧
          Grows (w.takeUp (w.tasks.take i) task (w.tasks.drop (i + 1))) w' ways more new [f] [e] ∧
            w.runTask i = w'.onComplete f (.relay task.done) := by
  cases is : m.call? with
  | some call =>
    have idle : w.running? m = none := by
      cases m with
      | run => cases is
      | _ => rfl
    exact .inl ⟨idle, call_grows is wired⟩
  | none =>
    cases running : w.running? m with
    | none => exact .inr (.inl ⟨rfl, answer?_ne_future is w, quiet_perform is running⟩)
    | some g =>
      cases m with
      | run index =>
        obtain ⟨task, found, _⟩ := Option.map_eq_some_iff.mp running
        obtain ⟨f, e, more, new, w', grows, ran⟩ := runTask_grows found wired
        exact .inr (.inr ⟨index, task, f, e, more, new, w', rfl, found, grows, ran⟩)
      | _ => cases running

theorem Engaged.perform (engaged : w.Engaged ways) (m : Move) :
    ∃ ways', (w.perform m).Engaged ways' ∧
      (∀ f on, w.Awaits ways f on → (w.perform m).Awaits ways' f (w.inherit on m)) ∧
      ∀ f, w.answer? m = some (.future f) → (w.perform m).Awaits ways' f (w.scheduled m) := by
  rcases perform_cases engaged.wired m with ⟨idle, f, e, more, new, answered, grows⟩ |
    ⟨idle, none, quiet⟩ | ⟨i, task, f, e, more, new, w', rfl, found, grows, ran⟩
  · refine ⟨_, engaged.grow grows, fun g on awaits => ?_, fun g returned => ?_⟩
    · rw [inherit_of_idle idle]
      exact awaits.grow grows
    · rw [answered] at returned
      cases returned
      exact grows.awaits
  · refine ⟨ways, engaged.quiet quiet, fun g on awaits => ?_, fun g returned => ?_⟩
    · rw [inherit_of_idle idle]
      exact awaits.quiet quiet
    · exact absurd returned (none g)
  · have running : w.running? (.run i) = some task.done := by rw [running?, found]; rfl
    have scheduled : w.scheduled (.run i) = new.map (·.done) := by
      rw [scheduled, World.perform, ran]
      show w'.deferrals.drop _ = _
      rw [grows.deferrals, deferrals_takeUp, List.drop_left]
    refine ⟨(ways ++ more).set task.done.number (.relay f), ?_, fun g on awaits => ?_, nofun⟩
    · rw [World.perform, ran]
      exact engaged.run found grows
    · have more := awaits.run engaged found grows
      rw [inherit, running, scheduled, World.perform, ran]
      simpa using more

theorem Engaged.play (engaged : w.Engaged ways) (ms : List Move) :
    ∃ ways', (w.play ms).Engaged ways' ∧
      ∀ f on, w.Awaits ways f on → (w.play ms).Awaits ways' f (w.behalf on ms) := by
  induction ms generalizing w ways with
  | nil => exact ⟨ways, engaged, fun f on awaits => awaits⟩
  | cons m rest ih =>
    obtain ⟨next, engaged, along, _⟩ := engaged.perform m
    obtain ⟨last, engaged, further⟩ := ih engaged
    exact ⟨last, engaged, fun f on awaits => further f _ (along f on awaits)⟩

/-- What a move does to all prospects: something may take the place of a task in them. -/
theorem Engaged.perform_reads (engaged : w.Engaged ways) (m : Move) :
    ∃ ways' σ, (w.perform m).Engaged ways' ∧ Prospect.Substitution σ ∧
      ∀ f e, ways.Reads f e → ways'.Reads f (σ e) := by
  rcases perform_cases engaged.wired m with ⟨_, f, e, more, new, _, grows⟩ | ⟨_, _, quiet⟩ |
    ⟨i, task, f, e, more, new, w', rfl, found, grows, ran⟩
  · exact ⟨_, id, engaged.grow grows, .id, fun f e reads => reads.append more⟩
  · exact ⟨ways, id, engaged.quiet quiet, .id, fun f e reads => reads⟩
  · rw [World.perform, ran]
    exact ⟨_, _, engaged.run found grows, .replace task.done e,
      fun f e reads => engaged.reads_run found grows reads⟩

theorem Engaged.play_reads (engaged : w.Engaged ways) (ms : List Move) :
    ∃ ways' σ, (w.play ms).Engaged ways' ∧ Prospect.Substitution σ ∧
      ∀ f e, ways.Reads f e → ways'.Reads f (σ e) := by
  induction ms generalizing w ways with
  | nil => exact ⟨ways, id, engaged, .id, fun f e reads => reads⟩
  | cons m rest ih =>
    obtain ⟨_, _, engaged, first, here⟩ := engaged.perform_reads m
    obtain ⟨_, _, engaged, second, there⟩ := ih engaged
    exact ⟨_, _, engaged, first.comp second, fun f e reads => there f _ (here f e reads)⟩

theorem Engaged.join (engaged : w.Engaged ways) (grows : Grows w w' ways more new fs es) :
    ∃ ways', (w'.all fs).2.Engaged (ways ++ more ++ ways') ∧
      Wiring.Reads (ways ++ more ++ ways') (w'.all fs).1 (.all es) ∧
      List.Forall₂ (Wiring.Reads (ways ++ more ++ ways')) fs es := by
  obtain ⟨more', wired, none, reads⟩ := grows.wired.all grows.reads
  refine ⟨more', ⟨wired, ?_⟩, reads, grows.reads.imp fun _ _ reads => reads.append more'⟩
  rw [Wiring.tasksFrom_append, Nat.zero_add, none, List.append_nil]
  exact (engaged.grow grows).tasks

theorem play_append (w : World ν) (ms ms' : List Move) :
    w.play (ms ++ ms') = (w.play ms).play ms' :=
  List.foldl_append

/-- A future that a call has returned waits for the tasks on behalf of the call. -/
theorem Engaged.returned (engaged : w.Engaged ways) (call : Move) (after : List Move)
    (returned : w.answer? call = some (.future f)) :
    (w.play (call :: after)).futures.isComplete f = false ↔
      ∃ task ∈ (w.play (call :: after)).tasks, task.done ∈ w.onBehalf call after := by
  obtain ⟨_, engaged, _, awaits⟩ := engaged.perform call
  obtain ⟨_, engaged, along⟩ := engaged.play after
  exact engaged.isComplete_iff (along f _ (awaits f returned))

structure Outstanding (w : World ν) (ms : List Move) : Prop where
  marked : ∀ p : Pair, ((w.play ms).store.record p).inFlight = true ↔ ∃ task ∈ (w.play ms).tasks,
    (task.node.id, task.target.id) = p ∧ task.node.step.config.policy.isActive = true
  incomplete : ∀ before call after f, ms = before ++ call :: after →
    (w.play before).answer? call = some (.future f) →
    ((w.play ms).futures.isComplete f = false ↔
      ∃ task ∈ (w.play ms).tasks, task.done ∈ (w.play before).onBehalf call after)
  idle : (w.play ms).tasks = [] → (∀ p : Pair, ((w.play ms).store.record p).inFlight = false) ∧
    ∀ before call after f, ms = before ++ call :: after →
      (w.play before).answer? call = some (.future f) → (w.play ms).futures.isComplete f = true

end World

end Cuescript
