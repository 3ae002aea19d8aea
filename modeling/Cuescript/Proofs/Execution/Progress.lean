import Cuescript.Proofs.Execution.Ledger
import Cuescript.Proofs.Execution.Prospects

/-!
How far a call of actions has come. What is left to do of it are errands: those that are still to be
done at once, and those that wait as tasks. Main statement: in whatever order errands are done, each
of them comes to what the world before the call says, as soon as its tasks do.
-/
namespace Cuescript

variable {ν : Type}

namespace Errand

variable (b : World ν) (t : Target) (c : Context)

def visits : Errand → List ActionStep
  | .attempt n => n.visits b t c
  | .run n _ => n.visits b t c
  | .fire _ _ => []

def verdict : Errand → Outcome
  | .attempt n => n.verdict b t c
  | .run n _ => n.verdict b t c
  | .fire _ _ => .empty

def asked : Errand → List ActionStep
  | .run n _ => [n.step]
  | _ => []

def isRun : Errand → Bool
  | .run _ _ => true
  | _ => false

/-- An errand of a call of actions: what has been admitted may run, under its own claim. -/
def Sound : Errand → Prop
  | .attempt _ => True
  | .run n claim => b.opens t c n.step = true ∧ claim = n.step.claim t
  | .fire _ _ => False

end Errand

def Task.errand (task : Task) : Errand := .run task.node task.claim

structure Separate (total : List ActionStep) : Prop where
  apart : total.Pairwise ActionStep.Apart
  guards : ∀ s ∈ total, (s.guards.map (·.id)).Nodup

namespace World

/-- How far a call has come that visits the actions in `total`: those in `done` have left their
traces, and the others are still on the agenda. -/
structure Progress (b : World ν) (t : Target) (c : Context) (total done : List ActionStep)
    (agenda : List Errand) (w : World ν) : Prop where
  ledger : Ledger b t c done (agenda.flatMap Errand.asked) w
  sound : ∀ e ∈ agenda, e.Sound b t c
  balance : (done ++ agenda.flatMap (Errand.visits b t c)).Perm total

variable {b w w' : World ν} {t : Target} {c : Context} {total done : List ActionStep}
  {agenda agenda' rest others errands : List Errand} {n : ActionNode} {claim : Claim}

theorem visits_of_succeeds (succeeds : b.succeeds t c n.step = true) :
    n.visits b t c = n.step :: ActionNode.visitsAll b t c n.children := by
  cases n
  exact congrArg (_ :: ·) (if_pos succeeds)

theorem visits_of_stops (stops : b.succeeds t c n.step = false) : n.visits b t c = [n.step] := by
  cases n
  exact congrArg (_ :: ·) (if_neg (Bool.eq_false_iff.mp stops))

theorem step_mem_visits (b : World ν) (t : Target) (c : Context) (n : ActionNode) :
    ∃ more, n.visits b t c = n.step :: more := by
  cases n
  exact ⟨_, rfl⟩

theorem visitsAll_eq (b : World ν) (t : Target) (c : Context) (ns : List ActionNode) :
    (ns.map Errand.attempt).flatMap (Errand.visits b t c) = ActionNode.visitsAll b t c ns := by
  induction ns with
  | nil => rfl
  | cons n rest ih => rw [List.map_cons, List.flatMap_cons, ih]; rfl

theorem asked_attempts (ns : List ActionNode) :
    (ns.map Errand.attempt).flatMap Errand.asked = [] := by
  rw [List.flatMap_eq_nil_iff]
  intro e member
  obtain ⟨_, _, rfl⟩ := List.mem_map.mp member
  rfl

theorem own_of_opens {s : ActionStep} (opens : b.opens t c s = true) :
    b.own t c s = (b.runBody s t c).1 := by
  obtain ⟨permits, holds⟩ := Bool.and_eq_true_iff.mp opens
  obtain ⟨accepts, granted⟩ := Bool.and_eq_true_iff.mp permits
  rw [own, if_neg (not_not_intro (of_decide_eq_true accepts)), holds]
  split
  · rename_i is
    rw [is] at granted
    cases granted
  · rfl

namespace Progress

theorem perm (progress : Progress b t c total done agenda w) (same : agenda.Perm agenda') :
    Progress b t c total done agenda' w where
  ledger := progress.ledger.perm (same.flatMap_right _)
  sound e member := progress.sound e (same.mem_iff.mpr member)
  balance := ((same.flatMap_right _).append_left done).symm.trans progress.balance

theorem congr (progress : Progress b t c total done agenda w) (clock : w'.clock = w.clock)
    (store : w'.store = w.store) (bodies : w'.bodies = w.bodies) :
    Progress b t c total done agenda w' :=
  { progress with ledger := progress.ledger.congr clock store bodies }

theorem apart (progress : Progress b t c total done (.attempt n :: rest) w)
    (separate : Separate total) :
    (∀ s' ∈ done ++ rest.flatMap Errand.asked, s'.Apart n.step) ∧
      (n.step.guards.map (·.id)).Nodup := by
  obtain ⟨more, visits⟩ := step_mem_visits b t c n
  have balance := progress.balance
  rw [List.flatMap_cons, Errand.visits, visits, List.cons_append] at balance
  have pairs := (balance.pairwise_iff ActionStep.Apart.symm).mpr separate.apart
  obtain ⟨_, behind, across⟩ := List.pairwise_append.mp pairs
  refine ⟨fun s' member => ?_, separate.guards _ (balance.mem_iff.mp (by simp))⟩
  rcases List.mem_append.mp member with before | waits
  · exact across s' before n.step List.mem_cons_self
  · obtain ⟨e, member, asked⟩ := List.mem_flatMap.mp waits
    refine ((List.pairwise_cons.mp behind).1 s' ?_).symm
    refine List.mem_append_right _ (List.mem_flatMap.mpr ⟨e, member, ?_⟩)
    cases e with
    | run m claim =>
      obtain rfl := List.mem_singleton.mp asked
      obtain ⟨more, visits⟩ := step_mem_visits b t c m
      rw [Errand.visits, visits]
      exact List.mem_cons_self
    | attempt | fire => cases asked

theorem quit (progress : Progress b t c total done (.attempt n :: rest) w)
    (separate : Separate total) {o : Outcome} (quits : Quits t c w (.attempt n) o w') :
    o = n.verdict b t c ∧ Progress b t c total (done ++ [n.step]) rest w' := by
  obtain ⟨apart, distinct⟩ := progress.apart separate
  obtain ⟨opens, rfl, ledger⟩ := Ledger.quit progress.ledger apart distinct quits
  have stops : b.succeeds t c n.step = false := by rw [succeeds, opens, Bool.false_and]
  refine ⟨?_, ledger, fun e member => progress.sound e (List.mem_cons_of_mem _ member), ?_⟩
  · cases n
    exact (if_neg (Bool.eq_false_iff.mp stops)).symm
  · have balance := progress.balance
    rw [List.flatMap_cons, Errand.visits, visits_of_stops stops, ← List.append_assoc] at balance
    exact balance

/-- An action gets as far as its body, which is what is left of its errand. -/
theorem enter (progress : Progress b t c total done (.attempt n :: rest) w)
    (separate : Separate total) (enters : Enters n t c w) :
    Progress b t c total done (.run n (n.step.claim t) :: rest) (w.within n t c) := by
  obtain ⟨apart, distinct⟩ := progress.apart separate
  obtain ⟨opens, ledger⟩ := Ledger.enter progress.ledger apart distinct enters
  refine ⟨ledger, fun e member => ?_, progress.balance⟩
  rcases List.mem_cons.mp member with rfl | member
  · exact ⟨opens, rfl⟩
  · exact progress.sound e (List.mem_cons_of_mem _ member)

theorem fail (progress : Progress b t c total done (.run n claim :: rest) w)
    (fails : (w.runBody n.step t c).1.isFailure = true) :
    (w.runBody n.step t c).1 = n.verdict b t c ∧
      Progress b t c total (done ++ [n.step]) rest (w.afterBody n t c claim) := by
  obtain ⟨opens, rfl⟩ := progress.sound _ List.mem_cons_self
  have stops : b.succeeds t c n.step = false := by
    rw [succeeds, show (b.runBody n.step t c).1.isFailure = true from fails, Bool.not_true,
      Bool.and_false]
  refine ⟨?_, Ledger.body progress.ledger opens,
    fun e member => progress.sound e (List.mem_cons_of_mem _ member), ?_⟩
  · refine (own_of_opens opens).symm.trans ?_
    cases n
    exact (if_neg (Bool.eq_false_iff.mp stops)).symm
  · have balance := progress.balance
    rw [List.flatMap_cons, Errand.visits, visits_of_stops stops, ← List.append_assoc] at balance
    exact balance

theorem succeed (progress : Progress b t c total done (.run n claim :: rest) w)
    (fine : (w.runBody n.step t c).1.isFailure = false) :
    Outcome.all ((w.runBody n.step t c).1 :: ActionNode.verdicts b t c n.children) =
        n.verdict b t c ∧
      Progress b t c total (done ++ [n.step]) (n.children.map .attempt ++ rest)
        (w.afterBody n t c claim) := by
  obtain ⟨opens, rfl⟩ := progress.sound _ List.mem_cons_self
  have succeeds : b.succeeds t c n.step = true := by
    rw [succeeds, opens, show (b.runBody n.step t c).1.isFailure = false from fine]
    rfl
  refine ⟨?_, ?_, fun e member => ?_, ?_⟩
  · refine (congrArg (fun o => Outcome.all (o :: _)) (own_of_opens opens).symm).trans ?_
    cases n
    exact (if_pos succeeds).symm
  · rw [List.flatMap_append, asked_attempts]
    exact Ledger.body progress.ledger opens
  · rcases List.mem_append.mp member with child | member
    · obtain ⟨_, _, rfl⟩ := List.mem_map.mp child
      exact trivial
    · exact progress.sound e (List.mem_cons_of_mem _ member)
  · have balance := progress.balance
    rw [List.flatMap_cons, Errand.visits, visits_of_succeeds succeeds] at balance
    rw [List.flatMap_append, visitsAll_eq, List.append_assoc]
    exact balance

end Progress

/-- What errands come to: some tasks are left, and what the others waited for is known if these
tasks come to what they are to. -/
structure Arrives (b : World ν) (t : Target) (c : Context) (total done : List ActionStep)
    (errands others : List Errand) (es : List Prospect) (w w' : World ν) (done' : List ActionStep)
    (new : List Task) : Prop where
  tasks : w'.tasks = w.tasks ++ new
  progress : Progress b t c total done' (new.map (·.errand) ++ others) w'
  targets : ∀ task ∈ new, task.target = t ∧ task.context = c
  ran : done.length + (errands.filter (·.isRun)).length ≤ done'.length
  outcomes : ∀ ends : FutureId → Option Outcome,
    (∀ task ∈ new, ends task.done = some (task.node.verdict b t c)) →
    es.map (Prospect.eval ends) = errands.map fun e => some (e.verdict b t c)

theorem verdicts_eq (b : World ν) (t : Target) (c : Context) (ns : List ActionNode) :
    ((ns.map Errand.attempt).map fun e => some (e.verdict b t c)) =
      (ActionNode.verdicts b t c ns).map some := by
  induction ns with
  | nil => rfl
  | cons n rest ih => rw [List.map_cons, List.map_cons, ih]; rfl

theorem Arrives.cons {e : Errand} {d : Prospect} {es : List Prospect} {w₁ : World ν}
    {done₁ done' : List ActionStep} {first new : List Task} (tasks : w₁.tasks = w.tasks ++ first)
    (targets : ∀ task ∈ first, task.target = t ∧ task.context = c)
    (ran : done.length + ([e].filter (·.isRun)).length ≤ done₁.length)
    (outcome : ∀ ends : FutureId → Option Outcome,
      (∀ task ∈ first, ends task.done = some (task.node.verdict b t c)) →
      d.eval ends = some (e.verdict b t c))
    (arrives : Arrives b t c total done₁ rest (first.map (·.errand) ++ others) es w₁ w' done' new) :
    Arrives b t c total done (e :: rest) others (d :: es) w w' done' (first ++ new) where
  tasks := by rw [arrives.tasks, tasks, List.append_assoc]
  progress := by
    refine arrives.progress.perm ?_
    rw [List.map_append, List.append_assoc]
    exact List.perm_append_comm_assoc ..
  targets task member := (List.mem_append.mp member).elim (targets task) (arrives.targets task)
  ran := by
    have further := arrives.ran
    rw [← List.singleton_append, List.filter_append, List.length_append]
    omega
  outcomes ends known := by
    rw [List.map_cons, List.map_cons, outcome ends fun task member => known task (by simp [member]),
      arrives.outcomes ends fun task member => known task (by simp [member])]

theorem Course.arrives {fs : List FutureId} {es : List Prospect}
    (course : Course t c w errands fs es w') (separate : Separate total)
    (progress : Progress b t c total done (errands ++ others) w) :
    ∃ done' new, Arrives b t c total done errands others es w w' done' new := by
  induction course generalizing done others with
  | done w =>
    exact ⟨done, [], (List.append_nil _).symm, progress, List.forall_mem_nil _, Nat.le_refl _,
      fun _ _ => rfl⟩
  | @quits w w₁ _ e rest o _ _ quits _ behind =>
    cases e with
    | attempt n =>
      obtain ⟨rfl, progress⟩ := progress.quit separate quits
      obtain ⟨done', new, arrives⟩ := behind (progress.congr rfl rfl rfl)
      refine ⟨done', [] ++ new, .cons ?_ nofun ?_ (fun _ _ => rfl) arrives⟩
      · rw [List.append_nil]
        exact quits.quiet.tasks
      · simp [Errand.isRun]
    | run => cases quits
    | fire => exact absurd (progress.sound _ List.mem_cons_self) id
  | @deferred w _ n rest _ _ enters late _ behind =>
    have bodies : ((w.within n t c).defer n t c (n.step.claim t)).2.bodies =
        (w.within n t c).bodies := bodies_enter _ n.id t.id [] rfl
    -- What is put off stays on the agenda, as a task.
    have later : Progress b t c total done (rest ++ .run n (n.step.claim t) :: others)
        ((w.within n t c).defer n t c (n.step.claim t)).2 :=
      ((progress.enter separate enters).perm List.perm_middle.symm).congr rfl rfl bodies
    let task : Task := ⟨(w.within n t c).clock.after n.step.config.delay, n, t, c, n.step.claim t,
      ((w.within n t c).defer n t c (n.step.claim t)).1⟩
    obtain ⟨done', new, arrives⟩ := behind later
    refine ⟨done', [task] ++ new, .cons ?_ ?_ ?_ (fun ends known => ?_) arrives⟩
    · exact congrArg (· ++ [task]) (quiet_within w n t c).tasks
    · intro other member
      obtain rfl := List.mem_singleton.mp member
      exact ⟨rfl, rfl⟩
    · simp [Errand.isRun]
    · exact known task (List.mem_singleton_self task)
  | @entered w _ n rest _ _ enters now behind ih =>
    obtain ⟨done', new, arrives⟩ := ih (progress.enter separate enters)
    refine ⟨done', new, ?_, arrives.progress, arrives.targets, ?_, arrives.outcomes⟩
    · rw [arrives.tasks, (quiet_within w n t c).tasks]
    · have ran := arrives.ran
      rw [List.filter_cons_of_pos rfl, List.length_cons] at ran
      rw [List.filter_cons_of_neg Bool.false_ne_true]
      omega
  | @failed w _ n claim rest _ _ fails _ behind =>
    obtain ⟨verdict, progress⟩ := progress.fail fails
    obtain ⟨done', new, arrives⟩ := behind (progress.congr rfl rfl rfl)
    refine ⟨done', [] ++ new, .cons ?_ nofun ?_ (fun _ _ => congrArg some verdict) arrives⟩
    · rw [List.append_nil]
      exact (quiet_afterBody w n t c claim).tasks
    · simp [Errand.isRun]
  | @ran w w₁ _ n claim rest gs _ ds _ succeeds _ _ below behind =>
    obtain ⟨verdict, progress⟩ := progress.succeed succeeds
    obtain ⟨done₁, first, inner⟩ := below (progress.congr rfl rfl rfl)
    have next := inner.progress.perm (List.perm_append_comm_assoc ..)
    obtain ⟨done', new, arrives⟩ := behind (next.congr rfl rfl rfl)
    refine ⟨done', first ++ new, .cons ?_ inner.targets ?_ (fun ends known => ?_) arrives⟩
    · exact inner.tasks.trans (congrArg (· ++ first) (quiet_afterBody w n t c claim).tasks)
    · have ran := inner.ran
      rw [List.length_append] at ran
      exact Nat.le_trans (Nat.le_add_right _ _) ran
    · have parts := inner.outcomes ends known
      rw [verdicts_eq] at parts
      rw [Prospect.eval_all _ ⟨0⟩, List.map_cons, parts]
      exact (Join.result?_map_some (_ :: _) ⟨0⟩).trans (congrArg some verdict)
  | fired => exact absurd (progress.sound _ List.mem_cons_self) id

end World

end Cuescript
