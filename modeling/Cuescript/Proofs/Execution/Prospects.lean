import Cuescript.Proofs.Execution.Courses

/-!
The futures that come of a call. Most of what happens in a call is of no concern to them: they are
made when an errand is turned away, put off, or carried out. Main statement: a call brings about
futures with the prospects that its course says, and the tasks in these prospects are the ones that
it puts off.
-/
namespace Cuescript

variable {ν : Type}

def Deed.task? : Deed → Option FutureId
  | .deferred task => some task
  | _ => none

namespace World

def deferrals (w : World ν) : List FutureId := w.journal.filterMap (·.deed.task?)

structure Quiet (w w' : World ν) : Prop where
  deferring : w'.deferring = w.deferring
  futures : w'.futures = w.futures
  tasks : w'.tasks = w.tasks
  deferrals : w'.deferrals = w.deferrals

variable {w w' w'' : World ν} {t : Target} {c : Context}

theorem Quiet.refl (w : World ν) : Quiet w w := ⟨rfl, rfl, rfl, rfl⟩

theorem Quiet.trans (first : Quiet w w') (second : Quiet w' w'') : Quiet w w'' where
  deferring := second.deferring.trans first.deferring
  futures := second.futures.trans first.futures
  tasks := second.tasks.trans first.tasks
  deferrals := second.deferrals.trans first.deferrals

theorem deferrals_enter (w : World ν) (i : NodeId) (t : String) {d : Deed} (notes : List String)
    (other : d.task? = none) : (w.enter i t d notes).deferrals = w.deferrals := by
  simp [deferrals, enter, other]

theorem quiet_enter (w : World ν) (i : NodeId) (t : String) {d : Deed} (notes : List String)
    (other : d.task? = none) : Quiet w (w.enter i t d notes) :=
  ⟨rfl, rfl, rfl, deferrals_enter w i t notes other⟩

theorem quiet_claim (w : World ν) (i : NodeId) (t : String) (p : Policy) :
    Quiet w (w.claim i t p).2 := by
  cases is : (w.claim i t p).1 with
  | error d =>
    rw [claim_refused is]
    exact ⟨rfl, rfl, rfl, rfl⟩
  | ok c =>
    rw [claim_granted is]
    have stored : Quiet w { w with store := (w.store.claim (i, t) p w.clock).2 } :=
      ⟨rfl, rfl, rfl, rfl⟩
    exact stored.trans (quiet_enter _ i t [] rfl)

theorem quiet_test (w : World ν) (n : RequirementNode) (t : Target) (c : Context) :
    Quiet w (w.test n t c).2 := by
  rw [test]
  split
  · exact .refl w
  · split
    · exact .refl w
    · dsimp only
      split
      · exact (quiet_enter w n.id t.id _ rfl).trans ⟨rfl, rfl, rfl, rfl⟩
      · exact quiet_enter w n.id t.id _ rfl

theorem quiet_testAll (w : World ν) (ns : List RequirementNode) (t : Target) (c : Context) :
    Quiet w (w.testAll ns t c).2 :=
  testAll_leads .refl .trans (fun n _ w => quiet_test w n t c) w

theorem quiet_release (w : World ν) (claim : Claim) : Quiet w (w.release claim) :=
  ⟨rfl, rfl, rfl, rfl⟩

theorem quiet_commit (w : World ν) (claim : Claim) : Quiet w (w.commit claim) :=
  ⟨rfl, rfl, rfl, rfl⟩

theorem quiet_runBody (w : World ν) (s : ActionStep) (t : Target) (c : Context) :
    Quiet w (w.runBody s t c).2 := quiet_enter w s.id t.id _ rfl

theorem quiet_matchData (w : World ν) (n : TriggerNode) (t : Target) (d : TriggerData) :
    Quiet w (w.matchData n t d).2 := quiet_enter w n.id t.id _ rfl

theorem quiet_askAt (w : World ν) (g : Gate) (t : Target) (c : Context) :
    Quiet w (w.askAt g t c).2 :=
  (quiet_claim w g.id t.id g.policy).trans (quiet_testAll _ g.guards t c)

theorem quiet_within (w : World ν) (n : ActionNode) (t : Target) (c : Context) :
    Quiet w (w.within n t c) := quiet_askAt w n.step.gate t c

theorem quiet_afterBody (w : World ν) (n : ActionNode) (t : Target) (c : Context) (claim : Claim) :
    Quiet w (w.afterBody n t c claim) := by
  refine (quiet_runBody w n.step t c).trans ?_
  rw [afterBody]
  dsimp only
  split
  · exact quiet_release _ claim
  · exact quiet_commit _ claim

theorem quiet_afterFiring (w : World ν) (n : TriggerNode) (t : Target) (d : TriggerData) :
    Quiet w (w.afterFiring n t d).2 := by
  refine (quiet_matchData w n t d).trans ((quiet_askAt _ n.gate t (.ofTrigger d)).trans ?_)
  exact (quiet_commit _ _).trans (quiet_enter _ n.id t.id _ rfl)

theorem Stops.quiet {g : Gate} {o : Outcome} (stops : Stops g t c w o w') : Quiet w w' := by
  cases stops with
  | denied d is => exact quiet_claim ..
  | unmet granted fails => exact (quiet_askAt w g t c).trans (quiet_release _ _)

theorem Quits.quiet {e : Errand} {o : Outcome} (quits : Quits t c w e o w') : Quiet w w' := by
  cases quits with
  | other | foreign => exact .refl w
  | stopped n accepts stops => exact stops.quiet
  | unmatched n d => exact quiet_matchData ..
  | silent n d accepts isMatch stops => exact (quiet_matchData w n t d).trans stops.quiet

/-- Between two worlds the wiring has grown by `more` and the tasks by `new`, and there are futures
`fs` whose prospects are `es`. -/
structure Grows (w w' : World ν) (ways more : Wiring) (new : List Task) (fs : List FutureId)
    (es : List Prospect) : Prop where
  wired : w'.futures.Wired (ways ++ more) []
  tasks : w'.tasks = w.tasks ++ new
  deferrals : w'.deferrals = w.deferrals ++ new.map (·.done)
  opened : more.tasksFrom ways.length = new.map (·.done)
  prospects : es.flatMap (·.tasks) = new.map (·.done)
  reads : List.Forall₂ (Wiring.Reads (ways ++ more)) fs es

variable {ways more : Wiring} {new : List Task} {fs : List FutureId} {es : List Prospect}

theorem Grows.nothing (wired : w.futures.Wired ways []) : Grows w w ways [] [] [] [] where
  wired := by
    rw [List.append_nil]
    exact wired
  tasks := (List.append_nil _).symm
  deferrals := (List.append_nil _).symm
  opened := rfl
  prospects := rfl
  reads := .nil

theorem Grows.append {more' : Wiring} {new' : List Task} {fs' : List FutureId} {es' : List Prospect}
    (first : Grows w w' ways more new fs es)
    (second : Grows w' w'' (ways ++ more) more' new' fs' es') :
    Grows w w'' ways (more ++ more') (new ++ new') (fs ++ fs') (es ++ es') where
  wired := by
    rw [← List.append_assoc]
    exact second.wired
  tasks := by rw [second.tasks, first.tasks, List.append_assoc]
  deferrals := by rw [second.deferrals, first.deferrals, List.map_append, List.append_assoc]
  opened := by
    rw [Wiring.tasksFrom_append, first.opened, ← List.length_append, second.opened, List.map_append]
  prospects := by rw [List.flatMap_append, first.prospects, second.prospects, List.map_append]
  reads := by
    rw [← List.append_assoc]
    exact List.rel_append (first.reads.imp fun _ _ reads => reads.append more') second.reads

theorem Grows.behind (grows : Grows w' w'' ways more new fs es) (quiet : Quiet w w') :
    Grows w w'' ways more new fs es :=
  { grows with
    tasks := quiet.tasks ▸ grows.tasks
    deferrals := quiet.deferrals ▸ grows.deferrals }

theorem grows_completed (wired : w.futures.Wired ways []) (o : Outcome) :
    Grows w (w.completed o).2 ways [.given o] [] [(w.completed o).1] [.given o] where
  wired := wired.completed o
  tasks := (List.append_nil _).symm
  deferrals := (List.append_nil _).symm
  opened := rfl
  prospects := rfl
  reads := by
    refine .cons (.given ?_) .nil
    show (ways ++ [.given o])[w.futures.values.length]? = _
    rw [← wired.size]
    simp

theorem grows_defer (wired : w.futures.Wired ways []) (n : ActionNode) (t : Target) (c : Context)
    (claim : Claim) :
    Grows w (w.defer n t c claim).2 ways [.task]
      [⟨w.clock.after n.step.config.delay, n, t, c, claim, (w.defer n t c claim).1⟩]
      [(w.defer n t c claim).1] [.task (w.defer n t c claim).1] where
  wired := wired.pending
  tasks := rfl
  deferrals := List.filterMap_append
  opened := congrArg (fun n => [FutureId.mk n]) wired.size
  prospects := rfl
  reads := by
    refine .cons (.task ?_) .nil
    show (ways ++ [.task])[w.futures.values.length]? = _
    rw [← wired.size]
    simp

theorem Grows.all (grows : Grows w w' ways more new fs es) :
    ∃ more', Grows w (w'.all fs).2 ways (more ++ more') new [(w'.all fs).1] [.all es] := by
  obtain ⟨more', wired, none, reads⟩ := grows.wired.all grows.reads
  refine ⟨more', ?_, grows.tasks, grows.deferrals, ?_, ?_, ?_⟩
  · rw [← List.append_assoc]
    exact wired
  · rw [Wiring.tasksFrom_append, grows.opened, ← List.length_append, none, List.append_nil]
  · rw [List.flatMap_singleton, Prospect.tasks_all, grows.prospects]
  · rw [← List.append_assoc]
    exact .cons reads .nil

theorem Grows.around {own : Outcome} {w₁ : World ν} {gs : List FutureId} {ds : List Prospect}
    {below : Wiring} {inside : List Task} (wired : w.futures.Wired ways [])
    (grows : Grows (w.completed own).2 w₁ (ways ++ [.given own]) below inside gs ds) :
    ∃ more', Grows w (w₁.all ((w.completed own).1 :: gs)).2 ways more' inside
      [(w₁.all ((w.completed own).1 :: gs)).1] [.all (.given own :: ds)] := by
  obtain ⟨more', joined⟩ := ((grows_completed wired own).append grows).all
  exact ⟨_, joined⟩

theorem Course.grows {errands : List Errand} (course : Course t c w errands fs es w')
    (wired : w.futures.Wired ways []) : ∃ more new, Grows w w' ways more new fs es := by
  induction course generalizing ways with
  | done w => exact ⟨_, _, .nothing wired⟩
  | @quits _ _ _ _ _ o _ _ quits _ behind =>
    rw [← quits.quiet.futures] at wired
    have first := grows_completed wired o
    obtain ⟨more, new, rest⟩ := behind first.wired
    exact ⟨_, _, (first.append rest).behind quits.quiet⟩
  | @deferred w _ n _ _ _ _ _ _ behind =>
    have quiet := quiet_within w n t c
    rw [← quiet.futures] at wired
    have first := grows_defer wired n t c (n.step.claim t)
    obtain ⟨more, new, rest⟩ := behind first.wired
    exact ⟨_, _, (first.append rest).behind quiet⟩
  | @entered w _ n _ _ _ _ _ _ behind =>
    have quiet := quiet_within w n t c
    rw [← quiet.futures] at wired
    obtain ⟨more, new, rest⟩ := behind wired
    exact ⟨_, _, rest.behind quiet⟩
  | @failed w _ n claim _ _ _ _ _ behind =>
    have quiet := quiet_afterBody w n t c claim
    rw [← quiet.futures] at wired
    have first := grows_completed wired (w.runBody n.step t c).1
    obtain ⟨more, new, rest⟩ := behind first.wired
    exact ⟨_, _, (first.append rest).behind quiet⟩
  | @ran w _ _ n claim _ _ _ _ _ _ _ _ below behind =>
    have quiet := quiet_afterBody w n t c claim
    rw [← quiet.futures] at wired
    obtain ⟨_, _, inner⟩ := below (grows_completed wired _).wired
    obtain ⟨_, first⟩ := Grows.around wired inner
    obtain ⟨more, new, rest⟩ := behind first.wired
    exact ⟨_, _, (first.append rest).behind quiet⟩
  | @fired w _ _ n d _ _ _ _ _ _ _ _ _ below behind =>
    have quiet := quiet_afterFiring w n t d
    rw [← quiet.futures] at wired
    obtain ⟨_, _, inner⟩ := below (grows_completed wired _).wired
    obtain ⟨_, first⟩ := Grows.around wired inner
    obtain ⟨more, new, rest⟩ := behind first.wired
    exact ⟨_, _, (first.append rest).behind quiet⟩

/-- A call returns one future, with the tasks in its prospect that the call puts off. -/
theorem call_grows {m : Move} {errands : List Errand} (is : m.call? = some (t, c, errands))
    (wired : w.futures.Wired ways []) :
    ∃ f e more new, w.answer? m = some (.future f) ∧
      Grows w (w.perform m) ways more new [f] [e] := by
  obtain ⟨fs, es, w', course, performed, answered⟩ := call_course is w
  obtain ⟨more, new, grows⟩ := course.grows wired
  obtain ⟨more', joined⟩ := grows.all
  rw [← performed] at joined
  exact ⟨_, _, _, _, answered, joined⟩

end World

end Cuescript
