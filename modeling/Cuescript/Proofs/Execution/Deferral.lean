import Cuescript.Proofs.Execution.Progress
import Cuescript.Proofs.Execution.Scripts
import Cuescript.Proofs.Execution.Waiting

/-!
Actions that are put off. A waiting task is an errand like those that are still to be done at once,
so what is left of a call can be done in any order. Main statement: a compiled script that is
executed with its delays, and whose tasks are then run in any order, comes to the same as one that
is executed without any.
-/
namespace Cuescript

variable {ν : Type}

namespace World

structure Arrived (b : World ν) (t : Target) (c : Context) (ns : List ActionNode) (w : World ν)
    (f : FutureId) : Prop where
  outcome : w.futures.value? f = some (Outcome.all (ActionNode.verdicts b t c ns))
  known : ∀ p : Pair, w.store.records.contains p =
    ((ActionNode.visitsAll b t c ns).any (enrols t p) || b.store.records.contains p)
  last : ∀ p : Pair, (w.store.record p).last =
    if (ActionNode.visitsAll b t c ns).any (b.commits t c p) then some b.clock
    else (b.store.record p).last
  passed : ∀ p : Pair, w.store.passed.get? p =
    if (ActionNode.visitsAll b t c ns).any (b.clears t c p) then some b.clock
    else b.store.passed.get? p
  bodies : w.bodies.Perm
    (b.bodies ++ ((ActionNode.visitsAll b t c ns).filter (b.opens t c)).map (b.body t c))

/-- A call of actions under way, after a number of tasks have run: what is left on the agenda waits
as tasks, and its future has its outcome if these come to what they are to. -/
structure Underway (b : World ν) (t : Target) (c : Context) (ns : List ActionNode) (f : FutureId)
    (runs : Nat) (w : World ν) (ways : Wiring) (done : List ActionStep) : Prop where
  engaged : w.Engaged ways
  progress : Progress b t c (ActionNode.visitsAll b t c ns) done (w.tasks.map (·.errand)) w
  targets : ∀ task ∈ w.tasks, task.target = t ∧ task.context = c
  runs : runs ≤ done.length
  outcome : ∃ e, ways.Reads f e ∧ ∀ ends : FutureId → Option Outcome,
    (∀ task ∈ w.tasks, ends task.done = some (task.node.verdict b t c)) →
    e.eval ends = some (Outcome.all (ActionNode.verdicts b t c ns))

variable {b w w' : World ν} {t : Target} {c : Context} {total done : List ActionStep}
  {errands : List Errand} {ns : List ActionNode} {f : FutureId} {runs i : Nat} {ways : Wiring}
  {task : Task}

theorem Underway.arrived (underway : Underway b t c ns f runs w ways done) (none : w.tasks = []) :
    Arrived b t c ns w f := by
  obtain ⟨engaged, progress, _, _, e, reads, outcome⟩ := underway
  obtain ⟨ledger, _, balance⟩ := progress
  rw [none, List.map_nil, List.flatMap_nil, List.append_nil] at balance
  rw [none, List.map_nil, List.flatMap_nil] at ledger
  refine ⟨?_, fun p => ?_, fun p => ?_, fun p => ?_, ?_⟩
  · rw [engaged.wired.value?_eq reads]
    refine outcome _ fun task member => ?_
    rw [none] at member
    cases member
  · rw [ledger.known, List.append_nil, balance.any_eq]
  · rw [ledger.last, balance.any_eq]
  · rw [ledger.passed, List.append_nil, balance.any_eq]
  · rw [ledger.bodies]
    exact ((balance.filter _).map _).append_left _

/-- A task runs, and what it puts off waits in its place. -/
theorem Underway.run (underway : Underway b t c ns f runs w ways done)
    (separate : Separate (ActionNode.visitsAll b t c ns)) (found : w.tasks[i]? = some task) :
    ∃ ways' done', Underway b t c ns f (runs + 1) (w.runTask i) ways' done' := by
  obtain ⟨engaged, progress, targets, ran, d, reads, outcome⟩ := underway
  obtain ⟨rfl, rfl⟩ := targets task (List.mem_of_getElem? found)
  obtain ⟨g, e, w', course, runs⟩ := runTask_course found
  obtain ⟨more, new, grows⟩ := course.grows engaged.wired
  have taken : Progress b task.target task.context
      (ActionNode.visitsAll b task.target task.context ns) done
      ([task.errand] ++ (w.tasks.take i ++ w.tasks.drop (i + 1)).map (·.errand))
      (w.takeUp (w.tasks.take i) task (w.tasks.drop (i + 1))) :=
    (progress.perm ((tasks_perm found).map _)).congr rfl rfl (bodies_enter _ _ _ [] rfl)
  obtain ⟨done', new', arrives⟩ := course.arrives separate taken
  obtain rfl : new = new' := List.append_cancel_left (grows.tasks.symm.trans arrives.tasks)
  have waiting : ∀ {other : Task}, other ∈ w.tasks →
      other = task ∨ other ∈ w.tasks.take i ++ w.tasks.drop (i + 1) := fun member =>
    List.mem_cons.mp ((tasks_perm found).mem_iff.mp member)
  have remains : ∀ {other : Task}, other ∈ w.tasks.take i ++ w.tasks.drop (i + 1) →
      other ∈ w.tasks := fun member =>
    (tasks_perm found).mem_iff.mpr (List.mem_cons_of_mem task member)
  have left : w'.tasks = w.tasks.take i ++ w.tasks.drop (i + 1) ++ new := grows.tasks
  rw [runs]
  refine ⟨_, done', engaged.run found grows, ?_, fun other member => ?_, ?_, d.replace task.done e,
    engaged.reads_run found grows reads, fun ends known => ?_⟩
  · refine (arrives.progress.perm ?_).congr rfl rfl rfl
    show (_ : List Errand).Perm (w'.tasks.map (·.errand))
    rw [left]
    exact List.perm_append_comm.trans (.of_eq List.map_append.symm)
  · have member : other ∈ w'.tasks := member
    rw [left] at member
    rcases List.mem_append.mp member with old | added
    · exact targets other (remains old)
    · exact arrives.targets other added
  · exact Nat.le_trans (Nat.succ_le_succ ran) arrives.ran
  · have known : ∀ other ∈ w.tasks.take i ++ w.tasks.drop (i + 1) ++ new,
        ends other.done = some (other.node.verdict b task.target task.context) := left ▸ known
    rw [Prospect.eval_replace]
    refine outcome _ fun other member => ?_
    rcases waiting member with rfl | old
    · have body := arrives.outcomes ends fun task added =>
        known task (List.mem_append_right _ added)
      rw [if_pos rfl]
      exact (List.cons.inj body).1
    · rw [if_neg (engaged.apart found old)]
      exact known other (List.mem_append_left _ old)

theorem Progress.start (clock : w.clock = b.clock) (store : w.store = b.store)
    (bodies : w.bodies = b.bodies) (ns : List ActionNode) :
    Progress b t c (ActionNode.visitsAll b t c ns) [] (ns.map .attempt) w where
  ledger := by
    rw [asked_attempts]
    exact .start clock store bodies
  sound e member := by
    obtain ⟨_, _, rfl⟩ := List.mem_map.mp member
    exact trivial
  balance := .of_eq (visitsAll_eq b t c ns)

/-- A call is made, and what it puts off waits. -/
theorem execute_underway {f : Forest} (clock : w.clock = b.clock) (store : w.store = b.store)
    (bodies : w.bodies = b.bodies) (engaged : w.Engaged ways) (idle : w.tasks = [])
    (separate : Separate (ActionNode.visitsAll b t c f.actions)) :
    ∃ ways' done',
      Underway b t c f.actions (w.execute f t c).1 0 (w.execute f t c).2 ways' done' := by
  obtain ⟨fs, es, w', course, performed, answered⟩ := call_course (m := .execute f t c) rfl w
  obtain ⟨more, new, grows⟩ := course.grows engaged.wired
  obtain ⟨more', joined⟩ := grows.all
  have progress : Progress b t c (ActionNode.visitsAll b t c f.actions) []
      (f.actions.map .attempt ++ []) w := by
    rw [List.append_nil]
    exact .start clock store bodies f.actions
  obtain ⟨done', new', arrives⟩ := course.arrives separate progress
  obtain rfl : new = new' := List.append_cancel_left (grows.tasks.symm.trans arrives.tasks)
  have tasks : w'.tasks = new := by rw [grows.tasks, idle, List.nil_append]
  have future : (w.execute f t c).1 = (w'.all fs).1 := Answer.future.inj (Option.some.inj answered)
  have world : (w.execute f t c).2 = (w'.all fs).2 := performed
  rw [future, world]
  refine ⟨_, done', engaged.grow joined, ?_, ?_, Nat.zero_le _, _,
    (List.forall₂_cons.mp joined.reads).1, fun ends known => ?_⟩
  · refine Progress.congr (w := w') ?_ rfl rfl rfl
    show Progress b t c (ActionNode.visitsAll b t c f.actions) done' (w'.tasks.map (·.errand)) w'
    rw [tasks, ← List.append_nil (new.map _)]
    exact arrives.progress
  · show ∀ task ∈ w'.tasks, _
    rw [tasks]
    exact arrives.targets
  · have known : ∀ task ∈ new, ends task.done = some (task.node.verdict b t c) := tasks ▸ known
    have parts := arrives.outcomes ends known
    rw [verdicts_eq] at parts
    rw [Prospect.eval_all _ ⟨0⟩, parts, Join.result?_map_some]

def Runnable : World ν → List Nat → Prop
  | _, [] => True
  | w, i :: rest => i < w.tasks.length ∧ (w.runTask i).Runnable rest

theorem Underway.runTasks (underway : Underway b t c ns f runs w ways done)
    (separate : Separate (ActionNode.visitsAll b t c ns)) (order : List Nat) :
    ∃ runs' ways' done', Underway b t c ns f runs' (order.foldl runTask w) ways' done' ∧
      (w.Runnable order → runs' = runs + order.length) := by
  induction order generalizing w runs ways done with
  | nil => exact ⟨runs, ways, done, underway, fun _ => rfl⟩
  | cons i rest ih =>
    cases found : w.tasks[i]? with
    | none =>
      have same : w.runTask i = w := by rw [runTask, found]
      obtain ⟨runs', ways', done', underway, _⟩ := ih underway
      refine ⟨runs', ways', done', ?_, fun runnable => ?_⟩
      · rw [List.foldl_cons, same]
        exact underway
      · rw [List.getElem?_eq_getElem runnable.1] at found
        cases found
    | some task =>
      obtain ⟨_, _, next⟩ := underway.run separate found
      obtain ⟨runs', ways', done', underway, count⟩ := ih next
      refine ⟨runs', ways', done', underway, fun runnable => ?_⟩
      rw [count runnable.2, List.length_cons]
      omega

theorem Course.immediate {fs : List FutureId} {es : List Prospect}
    (course : Course t c w errands fs es w') (now : w.deferring = false) :
    w'.deferring = false ∧ w'.tasks = w.tasks := by
  induction course with
  | done w => exact ⟨now, rfl⟩
  | quits quits _ behind =>
    obtain ⟨still, tasks⟩ := behind (quits.quiet.deferring.trans now)
    exact ⟨still, tasks.trans quits.quiet.tasks⟩
  | @deferred w _ n _ _ _ _ late =>
    rw [putsOff, (quiet_within w n t c).deferring, now] at late
    cases late
  | @entered w _ n _ _ _ _ _ _ behind =>
    have quiet := quiet_within w n t c
    obtain ⟨still, tasks⟩ := behind (quiet.deferring.trans now)
    exact ⟨still, tasks.trans quiet.tasks⟩
  | @failed w _ n claim _ _ _ _ _ behind =>
    have quiet := quiet_afterBody w n t c claim
    obtain ⟨still, tasks⟩ := behind (quiet.deferring.trans now)
    exact ⟨still, tasks.trans quiet.tasks⟩
  | @ran w _ _ n claim _ _ _ _ _ _ _ _ below behind =>
    have quiet := quiet_afterBody w n t c claim
    obtain ⟨inside, first⟩ := below (quiet.deferring.trans now)
    obtain ⟨still, tasks⟩ := behind inside
    exact ⟨still, tasks.trans (first.trans quiet.tasks)⟩
  | @fired w _ _ n d _ _ _ _ _ _ _ _ _ below behind =>
    have quiet := quiet_afterFiring w n t d
    obtain ⟨inside, first⟩ := below (quiet.deferring.trans now)
    obtain ⟨still, tasks⟩ := behind inside
    exact ⟨still, tasks.trans (first.trans quiet.tasks)⟩

/-- A world in which nothing has happened yet but what a store remembers. -/
def startWith (store : Store) (clock : Instant) (deferring : Bool) : World ν :=
  { start clock deferring with store := store }

end World

namespace ActionNode

open World

variable {b : World ν} {t : Target} {c : Context}

theorem visitsAll_sublist (b : World ν) (t : Target) (c : Context) (ns : List ActionNode) :
    (visitsAll b t c ns).Sublist ((membersAll ns).map (·.step)) := by
  induction ns using list_induction with
  | nil => exact .slnil
  | cons s children rest below behind =>
    simp only [visitsAll, visits, membersAll, members, List.map_append, List.map_cons]
    refine .append (.cons_cons s ?_) behind
    split
    · exact below
    · exact List.nil_sublist _

theorem Distinct.separate {ns : List ActionNode} (distinct : Distinct ns) (b : World ν)
    (t : Target) (c : Context) : Separate (visitsAll b t c ns) := by
  obtain ⟨own, others⟩ := List.nodup_flatMap.mp distinct.guards
  have acts : (membersAll ns).Pairwise fun m m' => m.id ≠ m'.id :=
    List.pairwise_map.mp distinct.acts
  have sublist := visitsAll_sublist b t c ns
  refine ⟨List.Pairwise.sublist sublist (List.pairwise_map.mpr ?_), fun s hs => ?_⟩
  · refine (acts.and others).imp fun both => ⟨both.1, fun g hg g' hg' same => ?_⟩
    exact both.2 (List.mem_map_of_mem hg) (same ▸ List.mem_map_of_mem hg')
  · obtain ⟨m, hm, rfl⟩ := List.mem_map.mp (sublist.subset hs)
    exact own m hm

end ActionNode

namespace World

structure SameEnd (w w' : World ν) (f f' : FutureId) : Prop where
  outcome : ∃ o, w.futures.value? f = some o ∧ w'.futures.value? f' = some o
  records : ∀ p : Pair, w'.store.records.get? p = w.store.records.get? p
  passed : ∀ p : Pair, w'.store.passed.get? p = w.store.passed.get? p
  bodies : w'.bodies.Perm w.bodies

/-- Without delays or with them, a script comes to the same end, in whatever order tasks are run. -/
structure Deferrable (ν : Type) (f : Forest) (t : Target) (c : Context) (store : Store)
    (clock : Instant) : Prop where
  ends : ∀ order : List Nat,
    Runnable ((startWith store clock true : World ν).execute f t c).2 order →
      order.length ≤ (ActionNode.membersAll f.actions).length
  agrees : ∀ order : List Nat,
    let now := (startWith store clock false : World ν).execute f t c
    let later := (startWith store clock true : World ν).execute f t c
    (order.foldl runTask later.2).tasks = [] →
      SameEnd now.2 (order.foldl runTask later.2) now.1 later.1

variable {b w w' : World ν} {t : Target} {c : Context} {ns : List ActionNode}

theorem Arrived.sameEnd {f f' : FutureId} (arrived : Arrived b t c ns w f)
    (arrived' : Arrived b t c ns w' f') (free : ∀ p, (w.store.record p).inFlight = false)
    (free' : ∀ p, (w'.store.record p).inFlight = false) : SameEnd w w' f f' where
  outcome := ⟨_, arrived.outcome, arrived'.outcome⟩
  records p := by
    have known : w'.store.records.contains p = w.store.records.contains p := by
      rw [arrived.known, arrived'.known]
    have last : (w'.store.record p).last = (w.store.record p).last := by
      rw [arrived.last, arrived'.last]
    have inFlight : (w'.store.record p).inFlight = (w.store.record p).inFlight := by
      rw [free, free']
    refine Store.get?_congr known ?_
    generalize w.store.record p = r at last inFlight
    generalize w'.store.record p = r' at last inFlight
    cases r
    cases r'
    exact congrArg₂ ExecutionRecord.mk last inFlight
  passed p := by rw [arrived.passed, arrived'.passed]
  bodies := arrived'.bodies.trans arrived.bodies.symm

theorem orderly_startWith {store : Store} (free : ∀ p, (store.record p).inFlight = false)
    (clock : Instant) (deferring : Bool) : (startWith store clock deferring : World ν).Orderly := by
  refine ⟨nofun, fun p => ?_⟩
  show _ = if (store.record p).inFlight then 1 else 0
  rw [free]
  rfl

theorem Orderly.runTasks (orderly : w.Orderly) (order : List Nat) :
    (order.foldl runTask w).Orderly := by
  induction order generalizing w with
  | nil => exact orderly
  | cons i rest ih => exact ih (orderly.perform (.run i))

theorem Orderly.idle (orderly : w.Orderly) (none : w.tasks = []) (p : Pair) :
    (w.store.record p).inFlight = false := by
  rw [← Bool.not_eq_true, orderly.inFlight_iff, none]
  simp

theorem execute_deferrable {f : Forest} (distinct : ActionNode.Distinct f.actions) {store : Store}
    (free : ∀ p, (store.record p).inFlight = false) (clock : Instant) (t : Target) (c : Context) :
    Deferrable ν f t c store clock := by
  have separate := distinct.separate (startWith store clock false : World ν) t c
  have engaged : ∀ deferring, (startWith store clock deferring : World ν).Engaged [] :=
    fun deferring => ⟨(Engaged.start (ν := ν) clock deferring).wired, .refl _⟩
  have orderly := fun deferring =>
    (orderly_startWith (ν := ν) free clock deferring).perform (.execute f t c)
  -- Both calls are told from one and the same world.
  have called : ∀ deferring, ∃ ways done,
      Underway (startWith store clock false : World ν) t c f.actions
        ((startWith store clock deferring).execute f t c).1 0
        ((startWith store clock deferring).execute f t c).2 ways done := fun deferring =>
    execute_underway rfl rfl rfl (engaged deferring) rfl separate
  obtain ⟨_, _, now⟩ := called false
  obtain ⟨_, _, later⟩ := called true
  constructor
  · intro order runnable
    obtain ⟨runs, _, done, underway, count⟩ := later.runTasks separate order
    have ran := underway.runs
    rw [count runnable, Nat.zero_add] at ran
    have whole := underway.progress.balance.length_eq
    have most :=
      (ActionNode.visitsAll_sublist (startWith store clock false : World ν) t c f.actions).length_le
    rw [List.length_append] at whole
    rw [List.length_map] at most
    omega
  · intro order
    dsimp only
    intro none
    obtain ⟨_, _, _, underway, _⟩ := later.runTasks separate order
    have idle : ((startWith store clock false : World ν).execute f t c).2.tasks = [] := by
      obtain ⟨fs, es, w', course, performed, _⟩ :=
        call_course (m := .execute f t c) rfl (startWith store clock false : World ν)
      have world : ((startWith store clock false : World ν).execute f t c).2 = (w'.all fs).2 :=
        performed
      rw [world]
      exact (course.immediate rfl).2
    exact (now.arrived idle).sameEnd (underway.arrived none) ((orderly false).idle idle)
      (((orderly true).runTasks order).idle none)

end World

/-- Two runs that are put off, the second behind a guard and with an action put off in it. -/
def delayedListing : Listing :=
  .ofDirectives
    [⟨.action, "heal", "delay=5s, cooldown=10s", "1", 1⟩,
      ⟨.requirement, "health", "check_once=true", "5", 2⟩,
      ⟨.action, "log", "delay=1s", "second", 3⟩,
      ⟨.action, "fail", "execute_once=true", "", 4⟩, ⟨.action, "say", "delay=2s", "done", 5⟩]

example :
    (Catalogue.registry.compile delayedListing 0).toOption.map (fun f =>
      let later := ((World.startWith Store.empty ⟨0⟩ true : World Unit).execute f
        ⟨"steve", .player "steve" 20⟩ .empty).2
      let ended := [1, 1, 0].foldl World.runTask later
      (later.tasks.length, ended.tasks.length, ended.bodies.map (·.node))) =
    some (2, 0, [⟨2⟩, ⟨3⟩, ⟨4⟩, ⟨0⟩]) := by decide +kernel

end Cuescript
