import Cuescript.Proofs.Execution.Moves
import Cuescript.Proofs.Execution.Steps
import Cuescript.Proofs.Futures.Prospects

/-!
The course of a call. A call has errands to do one after the other, and some have errands below
them; each is turned away, put off, or carried out. The course says which, and what each of the
futures will come to. Main statement: every call has exactly one course, and it is what the call
does.
-/
namespace Cuescript

variable {ν : Type}

inductive Errand where
  | attempt (n : ActionNode)
  /-- An action that has been admitted, with its claim. -/
  | run (n : ActionNode) (claim : Claim)
  | fire (n : TriggerNode) (d : TriggerData)

/-- What stands before a node: its policy and its guards. -/
structure Gate where
  id : NodeId
  policy : Policy
  guards : List RequirementNode

def ActionStep.gate (s : ActionStep) : Gate := ⟨s.id, s.config.policy, s.guards⟩

def TriggerNode.gate (n : TriggerNode) : Gate := ⟨n.id, n.config.policy, n.guards⟩

namespace World

def claimAt (w : World ν) (g : Gate) (t : Target) : Except Denial Claim × World ν :=
  w.claim g.id t.id g.policy

def askAt (w : World ν) (g : Gate) (t : Target) (c : Context) : Combined × World ν :=
  (w.claimAt g t).2.testAll g.guards t c

structure Passes (g : Gate) (t : Target) (c : Context) (w : World ν) : Prop where
  granted : (w.claimAt g t).1 = .ok (.of g.id t.id g.policy)
  holds : (w.askAt g t c).1.isFailure = false

/-- A gate is closed: with which outcome, and what it leaves behind. -/
inductive Stops (g : Gate) (t : Target) (c : Context) (w : World ν) : Outcome → World ν → Prop
  | denied (d : Denial) (is : (w.claimAt g t).1 = .error d) :
      Stops g t c w (.failed d.message) (w.claimAt g t).2
  | unmet (granted : (w.claimAt g t).1 = .ok (.of g.id t.id g.policy))
      (fails : (w.askAt g t c).1.isFailure = true) :
      Stops g t c w (w.askAt g t c).1.outcome ((w.askAt g t c).2.release (.of g.id t.id g.policy))

theorem stops_or_passes (w : World ν) (g : Gate) (t : Target) (c : Context) :
    (∃ o w', Stops g t c w o w') ∨ Passes g t c w := by
  cases is : (w.claimAt g t).1 with
  | error d => exact .inl ⟨_, _, .denied d is⟩
  | ok claim =>
    obtain rfl := claim_eq_of is
    cases fails : (w.askAt g t c).1.isFailure with
    | true => exact .inl ⟨_, _, .unmet is fails⟩
    | false => exact .inr ⟨is, fails⟩

/-- An errand is turned away with an outcome, before anything is carried out. -/
inductive Quits (t : Target) (c : Context) (w : World ν) : Errand → Outcome → World ν → Prop
  | other (n : ActionNode) (is : n.step.action.accepts ≠ t.type) : Quits t c w (.attempt n) .empty w
  | stopped (n : ActionNode) {o : Outcome} {w' : World ν} (accepts : n.step.action.accepts = t.type)
      (stops : Stops n.step.gate t c w o w') : Quits t c w (.attempt n) o w'
  | foreign (n : TriggerNode) (d : TriggerData) (is : n.trigger.accepts ≠ t.type) :
      Quits t c w (.fire n d) .empty w
  | unmatched (n : TriggerNode) (d : TriggerData) (accepts : n.trigger.accepts = t.type)
      (fails : (w.matchData n t d).1.isFailure = true) :
      Quits t c w (.fire n d) (w.matchData n t d).1 (w.matchData n t d).2
  | silent (n : TriggerNode) (d : TriggerData) {o : Outcome} {w' : World ν}
      (accepts : n.trigger.accepts = t.type)
      (isMatch : (w.matchData n t d).1.isFailure = false)
      (stops : Stops n.gate t (.ofTrigger d) (w.matchData n t d).2 o w') :
      Quits t c w (.fire n d) o w'

structure Enters (n : ActionNode) (t : Target) (c : Context) (w : World ν) : Prop where
  accepts : n.step.action.accepts = t.type
  passes : Passes n.step.gate t c w

structure Fires (n : TriggerNode) (t : Target) (d : TriggerData) (w : World ν) : Prop where
  accepts : n.trigger.accepts = t.type
  isMatch : (w.matchData n t d).1.isFailure = false
  passes : Passes n.gate t (.ofTrigger d) (w.matchData n t d).2

/-- The world in which the body of an action that enters is decided on. -/
def within (w : World ν) (n : ActionNode) (t : Target) (c : Context) : World ν :=
  (w.askAt n.step.gate t c).2

def putsOff (w : World ν) (n : ActionNode) : Bool := w.deferring && !n.step.config.delay.isZero

def afterBody (w : World ν) (n : ActionNode) (t : Target) (c : Context) (claim : Claim) : World ν :=
  let (o, w) := w.runBody n.step t c
  if o.isFailure then w.release claim else w.commit claim

def afterFiring (w : World ν) (n : TriggerNode) (t : Target) (d : TriggerData) :
    Outcome × World ν :=
  let (guards, w) := (w.matchData n t d).2.askAt n.gate t (.ofTrigger d)
  (guards.outcome, (w.commit (.of n.id t.id n.config.policy)).enter n.id t.id .fired [])

/-- What happens when errands are done one after the other, with the futures that come of it and
their prospects. -/
inductive Course (t : Target) (c : Context) :
    World ν → List Errand → List FutureId → List Prospect → World ν → Prop
  | done (w : World ν) : Course t c w [] [] [] w
  | quits {w w₁ w' : World ν} {e : Errand} {rest : List Errand} {o : Outcome} {fs : List FutureId}
      {es : List Prospect} (quits : Quits t c w e o w₁)
      (behind : Course t c (w₁.completed o).2 rest fs es w') :
      Course t c w (e :: rest) ((w₁.completed o).1 :: fs) (.given o :: es) w'
  | deferred {w w' : World ν} {n : ActionNode} {rest : List Errand} {fs : List FutureId}
      {es : List Prospect} (enters : Enters n t c w) (late : (w.within n t c).putsOff n = true)
      (behind : Course t c ((w.within n t c).defer n t c (n.step.claim t)).2 rest fs es w') :
      Course t c w (.attempt n :: rest)
        (((w.within n t c).defer n t c (n.step.claim t)).1 :: fs)
        (.task ((w.within n t c).defer n t c (n.step.claim t)).1 :: es) w'
  | entered {w w' : World ν} {n : ActionNode} {rest : List Errand} {fs : List FutureId}
      {es : List Prospect} (enters : Enters n t c w) (now : (w.within n t c).putsOff n = false)
      (behind : Course t c (w.within n t c) (.run n (n.step.claim t) :: rest) fs es w') :
      Course t c w (.attempt n :: rest) fs es w'
  | failed {w w' : World ν} {n : ActionNode} {claim : Claim} {rest : List Errand}
      {fs : List FutureId} {es : List Prospect} (fails : (w.runBody n.step t c).1.isFailure = true)
      (behind : Course t c
        ((w.afterBody n t c claim).completed (w.runBody n.step t c).1).2 rest fs es w') :
      Course t c w (.run n claim :: rest)
        (((w.afterBody n t c claim).completed (w.runBody n.step t c).1).1 :: fs)
        (.given (w.runBody n.step t c).1 :: es) w'
  | ran {w w₁ w' : World ν} {n : ActionNode} {claim : Claim} {rest : List Errand}
      {gs fs : List FutureId} {ds es : List Prospect}
      (succeeds : (w.runBody n.step t c).1.isFailure = false)
      (below : Course t c ((w.afterBody n t c claim).completed (w.runBody n.step t c).1).2
        (n.children.map .attempt) gs ds w₁)
      (behind : Course t c
        (w₁.all (((w.afterBody n t c claim).completed (w.runBody n.step t c).1).1 :: gs)).2
        rest fs es w') :
      Course t c w (.run n claim :: rest)
        ((w₁.all (((w.afterBody n t c claim).completed (w.runBody n.step t c).1).1 :: gs)).1 :: fs)
        (.all (.given (w.runBody n.step t c).1 :: ds) :: es) w'
  | fired {w w₁ w' : World ν} {n : TriggerNode} {d : TriggerData} {rest : List Errand}
      {gs fs : List FutureId} {ds es : List Prospect} (context : c = .ofTrigger d)
      (fires : Fires n t d w)
      (below : Course t c ((w.afterFiring n t d).2.completed (w.afterFiring n t d).1).2
        (n.actions.map .attempt) gs ds w₁)
      (behind : Course t c
        (w₁.all (((w.afterFiring n t d).2.completed (w.afterFiring n t d).1).1 :: gs)).2
        rest fs es w') :
      Course t c w (.fire n d :: rest)
        ((w₁.all (((w.afterFiring n t d).2.completed (w.afterFiring n t d).1).1 :: gs)).1 :: fs)
        (.all (.given (w.afterFiring n t d).1 :: ds) :: es) w'

end World

def Errand.perform (t : Target) (c : Context) (w : World ν) : Errand → FutureId × World ν
  | .attempt n => n.execute t c w
  | .run n claim => n.run t c claim w
  | .fire n d => w.fire n t d

namespace World

def follow (t : Target) (c : Context) : List Errand → World ν → List FutureId × World ν
  | [], w => ([], w)
  | e :: rest, w =>
    let (f, w) := e.perform t c w
    let (fs, w) := follow t c rest w
    (f :: fs, w)

theorem follow_cons (t : Target) (c : Context) (e : Errand) (rest : List Errand) (w : World ν) :
    follow t c (e :: rest) w =
      ((e.perform t c w).1 :: (follow t c rest (e.perform t c w).2).1,
        (follow t c rest (e.perform t c w).2).2) := rfl

theorem follow_attempts (t : Target) (c : Context) (ns : List ActionNode) (w : World ν) :
    follow t c (ns.map .attempt) w = ActionNode.executeEach ns t c w := by
  induction ns generalizing w with
  | nil => rfl
  | cons n rest ih => rw [List.map_cons, follow_cons, ActionNode.executeEach_cons, ih]; rfl

theorem follow_fires (t : Target) (c : Context) (d : TriggerData) (ns : List TriggerNode)
    (w : World ν) : follow t c (ns.map (.fire · d)) w = w.fireEach ns t d := by
  induction ns generalizing w with
  | nil => rfl
  | cons n rest ih => rw [List.map_cons, follow_cons, fireEach, ih]; rfl

variable {t : Target} {c : Context} {w w' : World ν}

theorem perform_quits {e : Errand} {o : Outcome} (quits : Quits t c w e o w') :
    e.perform t c w = w'.completed o := by
  cases quits with
  | other n is => exact if_pos is
  | stopped n accepts stops =>
    refine (if_neg (not_not_intro accepts)).trans ?_
    cases stops with
    | denied d is =>
      rw [show w.claim n.step.id t.id n.step.config.policy = (.error d, (w.claimAt n.step.gate t).2)
        from Prod.ext is rfl]
    | unmet granted fails =>
      rw [show w.claim n.step.id t.id n.step.config.policy = (.ok _, (w.claimAt n.step.gate t).2)
        from Prod.ext granted rfl]
      exact if_pos fails
  | foreign n d is => exact if_pos is
  | unmatched n d accepts fails =>
    refine (if_neg (not_not_intro accepts)).trans ?_
    exact if_pos fails
  | silent n d accepts isMatch stops =>
    rw [Errand.perform, fire, if_neg (not_not_intro accepts)]
    dsimp only
    rw [if_neg (Bool.eq_false_iff.mp isMatch)]
    generalize (w.matchData n t d).2 = w₁ at stops
    cases stops with
    | denied d is =>
      rw [show w₁.claim n.id t.id n.config.policy = (.error d, (w₁.claimAt n.gate t).2) from
        Prod.ext is rfl]
    | unmet granted fails =>
      rw [show w₁.claim n.id t.id n.config.policy = (.ok _, (w₁.claimAt n.gate t).2) from
        Prod.ext granted rfl]
      exact if_pos fails

theorem perform_enters {n : ActionNode} (enters : Enters n t c w) :
    (Errand.attempt n).perform t c w =
      if (w.within n t c).putsOff n then (w.within n t c).defer n t c (n.step.claim t)
      else n.run t c (n.step.claim t) (w.within n t c) := by
  refine (if_neg (not_not_intro enters.accepts)).trans ?_
  rw [show w.claim n.step.id t.id n.step.config.policy =
    (.ok (n.step.claim t), (w.claimAt n.step.gate t).2) from Prod.ext enters.passes.granted rfl]
  refine (if_neg ?_).trans rfl
  exact Bool.eq_false_iff.mp enters.passes.holds

theorem perform_fails {n : ActionNode} (fails : (w.runBody n.step t c).1.isFailure = true)
    (claim : Claim) :
    (Errand.run n claim).perform t c w =
      (w.afterBody n t c claim).completed (w.runBody n.step t c).1 := by
  have after : w.afterBody n t c claim = (w.runBody n.step t c).2.release claim := if_pos fails
  rw [after]
  obtain ⟨step, children⟩ := n
  rw [Errand.perform, ActionNode.run]
  exact if_pos fails

theorem perform_succeeds {n : ActionNode} {claim : Claim} {gs : List FutureId}
    (succeeds : (w.runBody n.step t c).1.isFailure = false)
    (below : follow t c (n.children.map .attempt)
      ((w.afterBody n t c claim).completed (w.runBody n.step t c).1).2 = (gs, w')) :
    (Errand.run n claim).perform t c w =
      w'.all (((w.afterBody n t c claim).completed (w.runBody n.step t c).1).1 :: gs) := by
  have fine := Bool.eq_false_iff.mp succeeds
  have after : w.afterBody n t c claim = (w.runBody n.step t c).2.commit claim := if_neg fine
  rw [after, follow_attempts] at below
  rw [after]
  obtain ⟨step, children⟩ := n
  rw [Errand.perform, ActionNode.run]
  refine (if_neg fine).trans ?_
  exact congrArg (fun done : List FutureId × World ν => done.2.all (_ :: done.1)) below

theorem perform_fires {n : TriggerNode} {d : TriggerData} {gs : List FutureId}
    (fires : Fires n t d w)
    (below : follow t (.ofTrigger d) (n.actions.map .attempt)
      ((w.afterFiring n t d).2.completed (w.afterFiring n t d).1).2 = (gs, w')) :
    (Errand.fire n d).perform t c w =
      w'.all (((w.afterFiring n t d).2.completed (w.afterFiring n t d).1).1 :: gs) := by
  obtain ⟨accepts, isMatch, passes⟩ := fires
  rw [follow_attempts, afterFiring] at below
  rw [Errand.perform, fire, if_neg (not_not_intro accepts), afterFiring]
  dsimp only
  rw [if_neg (Bool.eq_false_iff.mp isMatch)]
  generalize (w.matchData n t d).2 = w₁ at below passes ⊢
  rw [show w₁.claim n.id t.id n.config.policy =
    (.ok (.of n.id t.id n.config.policy), (w₁.claimAt n.gate t).2) from
    Prod.ext passes.granted rfl]
  refine (if_neg (Bool.eq_false_iff.mp passes.holds)).trans ?_
  exact congrArg (fun done : List FutureId × World ν => done.2.all (_ :: done.1)) below

theorem Course.follow_eq {errands : List Errand} {fs : List FutureId} {es : List Prospect}
    (course : Course t c w errands fs es w') : follow t c errands w = (fs, w') := by
  induction course with
  | done w => rfl
  | quits quits _ behind => rw [follow_cons, perform_quits quits, behind]
  | deferred enters late _ behind =>
    rw [follow_cons, perform_enters enters, if_pos late, behind]
  | entered enters now _ behind =>
    rw [follow_cons, perform_enters enters, if_neg (by simp [now])]
    exact behind
  | failed fails _ behind => rw [follow_cons, perform_fails fails, behind]
  | ran succeeds _ _ below behind =>
    rw [follow_cons, perform_succeeds succeeds below, behind]
  | fired context fires _ _ below behind =>
    subst context
    rw [follow_cons, perform_fires fires below, behind]

def Feasible (ν : Type) (t : Target) (c : Context) (errands : List Errand) : Prop :=
  ∀ w : World ν, ∃ fs es w', Course t c w errands fs es w'

theorem Feasible.run {n : ActionNode} {rest : List Errand}
    (below : Feasible ν t c (n.children.map .attempt)) (behind : Feasible ν t c rest)
    (claim : Claim) : Feasible ν t c (.run n claim :: rest) := by
  intro w
  cases fails : (w.runBody n.step t c).1.isFailure with
  | true =>
    obtain ⟨fs, es, w', behind⟩ := behind _
    exact ⟨_, _, _, .failed fails behind⟩
  | false =>
    obtain ⟨gs, ds, w₁, below⟩ := below _
    obtain ⟨fs, es, w', behind⟩ := behind _
    exact ⟨_, _, _, .ran fails below behind⟩

theorem Feasible.attempt {n : ActionNode} {rest : List Errand}
    (below : Feasible ν t c (n.children.map .attempt)) (behind : Feasible ν t c rest) :
    Feasible ν t c (.attempt n :: rest) := by
  intro w
  by_cases accepts : n.step.action.accepts = t.type
  · rcases stops_or_passes w n.step.gate t c with ⟨o, w₁, stops⟩ | passes
    · obtain ⟨fs, es, w', behind⟩ := behind (w₁.completed o).2
      exact ⟨_, _, _, .quits (.stopped n accepts stops) behind⟩
    · cases late : (w.within n t c).putsOff n with
      | true =>
        obtain ⟨fs, es, w', behind⟩ := behind _
        exact ⟨_, _, _, .deferred ⟨accepts, passes⟩ late behind⟩
      | false =>
        obtain ⟨fs, es, w', course⟩ := below.run behind (n.step.claim t) (w.within n t c)
        exact ⟨_, _, _, .entered ⟨accepts, passes⟩ late course⟩
  · obtain ⟨fs, es, w', behind⟩ := behind (w.completed .empty).2
    exact ⟨_, _, _, .quits (.other n accepts) behind⟩

theorem feasible_attempts (t : Target) (c : Context) (ns : List ActionNode) :
    Feasible ν t c (ns.map .attempt) := by
  induction ns using ActionNode.list_induction with
  | nil => exact fun w => ⟨_, _, _, .done w⟩
  | cons step children rest below behind =>
    exact Feasible.attempt (n := ⟨step, children⟩) below behind

theorem Feasible.fire {rest : List Errand} {d : TriggerData}
    (behind : Feasible ν t (.ofTrigger d) rest) (n : TriggerNode) :
    Feasible ν t (.ofTrigger d) (.fire n d :: rest) := by
  intro w
  by_cases accepts : n.trigger.accepts = t.type
  · cases fails : (w.matchData n t d).1.isFailure with
    | true =>
      obtain ⟨fs, es, w', behind⟩ := behind _
      exact ⟨_, _, _, .quits (.unmatched n d accepts fails) behind⟩
    | false =>
      rcases stops_or_passes (w.matchData n t d).2 n.gate t (.ofTrigger d) with
        ⟨o, w₁, stops⟩ | passes
      · obtain ⟨fs, es, w', behind⟩ := behind (w₁.completed o).2
        exact ⟨_, _, _, .quits (.silent n d accepts fails stops) behind⟩
      · obtain ⟨gs, ds, w₁, below⟩ := feasible_attempts t (.ofTrigger d) n.actions _
        obtain ⟨fs, es, w', behind⟩ := behind _
        exact ⟨_, _, _, .fired rfl ⟨accepts, fails, passes⟩ below behind⟩
  · obtain ⟨fs, es, w', behind⟩ := behind (w.completed .empty).2
    exact ⟨_, _, _, .quits (.foreign n d accepts) behind⟩

theorem feasible_fires (t : Target) (d : TriggerData) (ns : List TriggerNode) :
    Feasible ν t (.ofTrigger d) (ns.map (.fire · d)) := by
  induction ns with
  | nil => exact fun w => ⟨_, _, _, .done w⟩
  | cons n rest ih => exact ih.fire n

end World

def Move.call? : Move → Option (Target × Context × List Errand)
  | .execute f t c => some (t, c, f.actions.map .attempt)
  | .act n t c => some (t, c, [.attempt n])
  | .trigger f t d => some (t, .ofTrigger d, (f.triggersFor d.identifier).map (.fire · d))
  | .fire n t d => some (t, .ofTrigger d, [.fire n d])
  | _ => none

namespace World

variable {t : Target} {c : Context} {errands : List Errand}

theorem call_feasible {m : Move} (is : m.call? = some (t, c, errands)) :
    Feasible ν t c errands := by
  cases m with
  | execute f t c =>
    cases is
    exact feasible_attempts t c f.actions
  | act n t c =>
    cases is
    exact feasible_attempts t c [n]
  | trigger f t d =>
    cases is
    exact feasible_fires t d _
  | fire n t d =>
    cases is
    exact feasible_fires t d [n]
  | test | rehearse | clock | run | reset | clear => cases is

theorem perform_call {m : Move} (is : m.call? = some (t, c, errands)) (w : World ν) :
    let done := follow t c errands w
    w.perform m = (done.2.all done.1).2 ∧ w.answer? m = some (.future (done.2.all done.1).1) := by
  cases m with
  | execute f t c =>
    cases is
    rw [follow_attempts]
    exact ⟨rfl, rfl⟩
  | act n t c =>
    cases is
    exact ⟨rfl, rfl⟩
  | trigger f t d =>
    cases is
    rw [follow_fires]
    exact ⟨rfl, rfl⟩
  | fire n t d =>
    cases is
    exact ⟨rfl, rfl⟩
  | test | rehearse | clock | run | reset | clear => cases is

theorem Course.of_call {m : Move} {w w' : World ν} {fs : List FutureId} {es : List Prospect}
    (course : Course t c w errands fs es w') (is : m.call? = some (t, c, errands)) :
    w.perform m = (w'.all fs).2 ∧ w.answer? m = some (.future (w'.all fs).1) := by
  have performed := perform_call is w
  rw [course.follow_eq] at performed
  exact performed

theorem call_course {m : Move} (is : m.call? = some (t, c, errands)) (w : World ν) :
    ∃ fs es w', Course t c w errands fs es w' ∧ w.perform m = (w'.all fs).2 ∧
      w.answer? m = some (.future (w'.all fs).1) := by
  obtain ⟨fs, es, w', course⟩ := call_feasible is w
  exact ⟨fs, es, w', course, course.of_call is⟩

theorem Course.of_run {n : ActionNode} {claim : Claim} {w w' : World ν} {fs : List FutureId}
    {es : List Prospect} (course : Course t c w [.run n claim] fs es w') :
    ∃ f e, fs = [f] ∧ es = [e] := by
  cases course with
  | quits quits => cases quits
  | failed _ behind =>
    cases behind
    exact ⟨_, _, rfl, rfl⟩
  | ran _ _ behind =>
    cases behind
    exact ⟨_, _, rfl, rfl⟩

theorem Course.of_task {w w' : World ν} {i : Nat} {task : Task} {f : FutureId} {e : Prospect}
    (course : Course task.target task.context
      (w.takeUp (w.tasks.take i) task (w.tasks.drop (i + 1))) [.run task.node task.claim] [f] [e]
      w')
    (found : w.tasks[i]? = some task) : w.runTask i = w'.onComplete f (.relay task.done) := by
  have followed := course.follow_eq
  rw [follow_cons, Prod.mk.injEq, List.cons.injEq] at followed
  obtain ⟨⟨rfl, _⟩, rfl⟩ := followed
  rw [runTask, found]
  dsimp only
  rw [List.eraseIdx_eq_take_drop_succ]
  rfl

/-- A task that is run is a single errand, whose future hands over to that of the task. -/
theorem runTask_course {w : World ν} {i : Nat} {task : Task} (found : w.tasks[i]? = some task) :
    ∃ f e w', Course task.target task.context
        (w.takeUp (w.tasks.take i) task (w.tasks.drop (i + 1))) [.run task.node task.claim] [f] [e]
        w' ∧
      w.runTask i = w'.onComplete f (.relay task.done) := by
  have feasible := (feasible_attempts task.target task.context task.node.children).run
    (show Feasible ν task.target task.context [] from fun w => ⟨_, _, _, .done w⟩) task.claim
  obtain ⟨fs, es, w', course⟩ := feasible (w.takeUp (w.tasks.take i) task (w.tasks.drop (i + 1)))
  obtain ⟨f, e, rfl, rfl⟩ := course.of_run
  exact ⟨f, e, w', course, course.of_task found⟩

end World

end Cuescript
