import Mathlib.Logic.Relation
import Cuescript.Proofs.Execution.Moves
import Cuescript.Proofs.Execution.Records

/-!
What happens in a move, one step at a time. However deep the actions are nested, there is never
more than one claim in hand: it is settled or put off with a task before the children are looked
at. So a state between two steps is a world with the claim in hand, and a property of all runs is
one that every step keeps.
-/
namespace Cuescript

variable {ν : Type}

inductive Hold where
  | nothing
  | granted (c : Claim)
  | resumed (c : Claim)

def Hold.claim? : Hold → Option Claim
  | .nothing => none
  | .granted c => some c
  | .resumed c => some c

def Claim.of (node : NodeId) (target : String) (policy : Policy) : Claim :=
  ⟨(node, target), policy.isActive⟩

def ActionStep.claim (s : ActionStep) (t : Target) : Claim := .of s.id t.id s.config.policy

def Task.Obeys (allowed : Allowance) (task : Task) : Prop :=
  task.node.Obeys allowed ∧ task.claim = task.node.step.claim task.target

namespace World

def takeUp (w : World ν) (before : List Task) (task : Task) (after : List Task) : World ν :=
  { w with tasks := before ++ after }.enter task.node.id task.target.id (.resumed task.done) []

inductive Step (allowed : Allowance) : Hold × World ν → Hold × World ν → Prop
  | futures (h : Hold) (w : World ν) (futures : Futures ν) :
      Step allowed (h, w) (h, { w with futures := futures })
  | asked (h : Hold) (w : World ν) (n : RequirementNode) (t : Target) (c : Context) :
      Step allowed (h, w) (h, (w.test n t c).2)
  | matched (h : Hold) (w : World ν) (n : TriggerNode) (t : Target) (d : TriggerData) :
      Step allowed (h, w) (h, (w.matchData n t d).2)
  | clock (w : World ν) (time : Instant) :
      Step allowed (.nothing, w) (.nothing, w.setClock time)
  | denied (w : World ν) (i : NodeId) (t : String) (p : Policy) (d : Denial) (ok : allowed i p)
      (is : (w.claim i t p).1 = .error d) :
      Step allowed (.nothing, w) (.nothing, (w.claim i t p).2)
  | admitted (w : World ν) (i : NodeId) (t : String) (p : Policy) (c : Claim) (ok : allowed i p)
      (is : (w.claim i t p).1 = .ok c) :
      Step allowed (.nothing, w) (.granted c, (w.claim i t p).2)
  | released (w : World ν) (c : Claim) :
      Step allowed (.granted c, w) (.nothing, w.release c)
  | deferred (w : World ν) (n : ActionNode) (t : Target) (c : Context) (ok : n.Obeys allowed) :
      Step allowed (.granted (n.step.claim t), w)
        (.nothing, (w.defer n t c (n.step.claim t)).2)
  | resumed (w : World ν) (before : List Task) (task : Task) (after : List Task)
      (ok : task.Obeys allowed) (is : w.tasks = before ++ task :: after) :
      Step allowed (.nothing, w) (.resumed task.claim, w.takeUp before task after)
  | ran (h : Hold) (w : World ν) (s : ActionStep) (t : Target) (c : Context)
      (inHand : h.claim? = some (s.claim t)) (is : (w.runBody s t c).1.isFailure = false) :
      Step allowed (h, w) (.nothing, (w.runBody s t c).2.commit (s.claim t))
  | failed (h : Hold) (w : World ν) (s : ActionStep) (t : Target) (c : Context)
      (inHand : h.claim? = some (s.claim t)) (is : (w.runBody s t c).1.isFailure = true) :
      Step allowed (h, w) (.nothing, (w.runBody s t c).2.release (s.claim t))
  | fired (w : World ν) (i : NodeId) (t : String) (p : Policy) :
      Step allowed (.granted (.of i t p), w)
        (.nothing, (w.commit (.of i t p)).enter i t .fired [])

abbrev Steps (allowed : Allowance) : Hold × World ν → Hold × World ν → Prop :=
  Relation.ReflTransGen (Step allowed)

variable {allowed : Allowance}

theorem claim_eq_of {w : World ν} {i : NodeId} {t : String} {p : Policy} {c : Claim}
    (is : (w.claim i t p).1 = .ok c) : c = .of i t p := by
  rw [claim_fst] at is
  exact (Store.claim_ok_iff.mp is).1

theorem completed_steps (h : Hold) (w : World ν) (o : Outcome) :
    Steps allowed (h, w) (h, (w.completed o).2) :=
  .single (.futures h w _)

theorem all_steps (h : Hold) (w : World ν) (fs : List FutureId) :
    Steps allowed (h, w) (h, (w.all fs).2) :=
  .single (.futures h w _)

theorem testAll_leads {R : World ν → World ν → Prop} (refl : ∀ w, R w w)
    (trans : ∀ {w w' w''}, R w w' → R w' w'' → R w w'') {ns : List RequirementNode} {t : Target}
    {c : Context} (each : ∀ n ∈ ns, ∀ w, R w (w.test n t c).2) (w : World ν) :
    R w (w.testAll ns t c).2 := by
  rw [testAll]
  induction ns generalizing w with
  | nil => exact refl w
  | cons n rest ih =>
    obtain ⟨here, behind⟩ := List.forall_mem_cons.mp each
    exact trans (here w) (ih behind _)

theorem testEach_steps (h : Hold) (w : World ν) (ns : List RequirementNode) (t : Target)
    (c : Context) : Steps allowed (h, w) (h, (w.testEach ns t c).2) := by
  induction ns generalizing w with
  | nil => exact .refl
  | cons n rest ih => exact .head (.asked h w n t c) (ih _)

theorem testAll_steps (h : Hold) (w : World ν) (ns : List RequirementNode) (t : Target)
    (c : Context) : Steps allowed (h, w) (h, (w.testAll ns t c).2) :=
  testEach_steps h w ns t c

theorem claim_steps (w : World ν) {i : NodeId} (t : String) {p : Policy} (ok : allowed i p) :
    (∃ d w', w.claim i t p = (.error d, w') ∧ Steps allowed (.nothing, w) (.nothing, w')) ∨
      ∃ w', w.claim i t p = (.ok (.of i t p), w') ∧
        Steps allowed (.nothing, w) (.granted (.of i t p), w') := by
  cases is : (w.claim i t p).1 with
  | error d => exact .inl ⟨d, _, Prod.ext is rfl, .single (.denied w i t p d ok is)⟩
  | ok claim =>
    obtain rfl := claim_eq_of is
    exact .inr ⟨_, Prod.ext is rfl, .single (.admitted w i t p _ ok is)⟩

/-- An action up to its body: what `run` and `later` do, they do with the claim in hand. -/
theorem attempt_steps {w : World ν} {s : ActionStep} {t : Target} {c : Context}
    {run later : Claim → World ν → FutureId × World ν} (ok : allowed s.id s.config.policy)
    (runs : ∀ w, Steps allowed (.granted (s.claim t), w) (.nothing, (run (s.claim t) w).2))
    (waits : ∀ w, Steps allowed (.granted (s.claim t), w) (.nothing, (later (s.claim t) w).2)) :
    Steps allowed (.nothing, w) (.nothing, (w.attempt s t c run later).2) := by
  rw [attempt]
  split
  · exact completed_steps ..
  · obtain ⟨d, w', is, claimed⟩ | ⟨w', is, claimed⟩ := claim_steps w t.id ok
    · rw [is]
      exact .trans claimed (completed_steps ..)
    · rw [is]
      refine .trans claimed (.trans (testAll_steps _ w' s.guards t c) ?_)
      dsimp only
      split
      · exact .head (.released _ _) (completed_steps ..)
      · split
        · exact waits _
        · exact runs _

end World

namespace ActionNode

open World

variable {allowed : Allowance}

theorem defer_steps {n : ActionNode} (ok : n.Obeys allowed) (t : Target) (c : Context)
    (w : World ν) :
    Steps allowed (.granted (n.step.claim t), w) (.nothing, (w.defer n t c (n.step.claim t)).2) :=
  .single (.deferred w n t c ok)

theorem run_steps {n : ActionNode} {t : Target} {c : Context} {h : Hold}
    (inHand : h.claim? = some (n.step.claim t))
    (below : ∀ w : World ν,
      Steps allowed (.nothing, w) (.nothing, (executeEach n.children t c w).2)) (w : World ν) :
    Steps allowed (h, w) (.nothing, (n.run t c (n.step.claim t) w).2) := by
  obtain ⟨step, children⟩ := n
  simp only [run]
  split
  · rename_i fails
    exact .head (.failed h w step t c inHand fails) (completed_steps ..)
  · rename_i succeeds
    refine .head (.ran h w step t c inHand (by simpa using succeeds)) ?_
    exact .trans (completed_steps ..) (.trans (below _) (all_steps ..))

theorem executeEach_cons (n : ActionNode) (rest : List ActionNode) (t : Target) (c : Context)
    (w : World ν) :
    executeEach (n :: rest) t c w =
      ((n.execute t c w).1 :: (executeEach rest t c (n.execute t c w).2).1,
        (executeEach rest t c (n.execute t c w).2).2) := rfl

theorem execute_of_below {n : ActionNode} (ok : n.Obeys allowed) {t : Target} {c : Context}
    (below : ∀ w : World ν,
      Steps allowed (.nothing, w) (.nothing, (executeEach n.children t c w).2)) (w : World ν) :
    Steps allowed (.nothing, w) (.nothing, (n.execute t c w).2) := by
  obtain ⟨step, children⟩ := n
  exact attempt_steps (obeys_iff.mp ok).1 (run_steps rfl below) (defer_steps ok t c)

theorem executeEach_steps (t : Target) (c : Context) (ns : List ActionNode) :
    ObeyAll allowed ns → ∀ w : World ν,
      Steps allowed (.nothing, w) (.nothing, (executeEach ns t c w).2) := by
  induction ns using list_induction with
  | nil => exact fun _ w => .refl
  | cons step children rest below behind =>
    intro ok w
    obtain ⟨first, others⟩ := obeyAll_cons.mp ok
    rw [executeEach_cons]
    exact .trans (execute_of_below first (below (obeys_iff.mp first).2) w) (behind others _)

theorem execute_steps {n : ActionNode} (ok : n.Obeys allowed) (t : Target) (c : Context)
    (w : World ν) : Steps allowed (.nothing, w) (.nothing, (n.execute t c w).2) :=
  execute_of_below ok (executeEach_steps t c n.children (obeys_iff.mp ok).2) w

end ActionNode

namespace World

variable {allowed : Allowance}

theorem fire_steps {n : TriggerNode} (ok : n.Obeys allowed) (t : Target) (d : TriggerData)
    (w : World ν) : Steps allowed (.nothing, w) (.nothing, (w.fire n t d).2) := by
  rw [fire]
  split
  · exact completed_steps ..
  · refine .head (.matched _ w n t d) ?_
    dsimp only
    generalize (w.matchData n t d).2 = w
    split
    · exact completed_steps ..
    · obtain ⟨d, w', is, claimed⟩ | ⟨w', is, claimed⟩ := claim_steps w t.id ok.1
      · rw [is]
        exact .trans claimed (completed_steps ..)
      · rw [is]
        refine .trans claimed (.trans (testAll_steps _ w' n.guards t (.ofTrigger d)) ?_)
        dsimp only
        split
        · exact .head (.released _ _) (completed_steps ..)
        · refine .head (.fired _ n.id t.id n.config.policy) ?_
          refine .trans (completed_steps _ _ (w'.testAll n.guards t (.ofTrigger d)).1.outcome) ?_
          exact .trans (ActionNode.executeEach_steps _ _ _ ok.2 _) (all_steps ..)

theorem fireEach_steps {ns : List TriggerNode} (ok : ∀ n ∈ ns, n.Obeys allowed) (t : Target)
    (d : TriggerData) (w : World ν) :
    Steps allowed (.nothing, w) (.nothing, (w.fireEach ns t d).2) := by
  induction ns generalizing w with
  | nil => exact .refl
  | cons n rest ih =>
    have each := List.forall_mem_cons.mp ok
    exact .trans (fire_steps each.1 t d w) (ih each.2 _)

theorem testTrigger_steps (n : TriggerNode) (t : Target) (d : TriggerData) (w : World ν) :
    Steps allowed (.nothing, w) (.nothing, (w.testTrigger n t d).2) := by
  rw [testTrigger]
  split
  · exact .refl
  · refine .head (.matched _ w n t d) ?_
    dsimp only
    split
    · exact .refl
    · exact testAll_steps ..

theorem runTask_steps {w : World ν} (ok : ∀ task ∈ w.tasks, task.Obeys allowed) (index : Nat) :
    Steps allowed (.nothing, w) (.nothing, w.runTask index) := by
  rw [runTask]
  split
  · exact .refl
  · rename_i task found
    obtain ⟨inBounds, is⟩ := List.getElem?_eq_some_iff.mp found
    have parts : w.tasks = w.tasks.take index ++ task :: w.tasks.drop (index + 1) := by
      rw [← is, List.getElem_cons_drop, List.take_append_drop]
    have obeys := ok task (List.mem_of_getElem? found)
    rw [List.eraseIdx_eq_take_drop_succ]
    refine .head (.resumed w _ task _ obeys parts) ?_
    refine .trans ?_ (.single (.futures _ _ _))
    rw [obeys.2]
    exact ActionNode.run_steps rfl
      (ActionNode.executeEach_steps _ _ _ (ActionNode.obeys_iff.mp obeys.1).2) _

theorem perform_steps {m : Move} (ok : m.Obeys allowed) (keeps : m.forgets = false) {w : World ν}
    (tasks : ∀ task ∈ w.tasks, task.Obeys allowed) :
    Steps allowed (.nothing, w) (.nothing, w.perform m) := by
  cases m with
  | test f t c => exact testAll_steps ..
  | execute f t c =>
    exact .trans (ActionNode.executeEach_steps _ _ _ (ActionNode.obeyAll_iff.mpr ok.1) _)
      (all_steps ..)
  | act n t c => exact ActionNode.execute_steps ok t c w
  | trigger f t d =>
    exact .trans (fireEach_steps (fun n hn => ok.2 n (List.mem_filter.mp hn).1) t d w)
      (all_steps ..)
  | fire n t d => exact fire_steps ok t d w
  | rehearse n t d => exact testTrigger_steps n t d w
  | clock time => exact .single (.clock w time)
  | run index => exact runTask_steps tasks index
  | reset target => cases keeps
  | clear => cases keeps

@[simp] theorem tasks_test (w : World ν) (n : RequirementNode) (t : Target) (c : Context) :
    (w.test n t c).2.tasks = w.tasks := by
  rw [test]
  split
  · rfl
  · split
    · rfl
    · dsimp only
      split <;> rfl

theorem Step.tasks_obey {a b : Hold × World ν} (step : Step allowed a b)
    (ok : ∀ task ∈ a.2.tasks, task.Obeys allowed) : ∀ task ∈ b.2.tasks, task.Obeys allowed := by
  cases step with
  | futures | matched | clock | released | ran | failed | fired => exact ok
  | asked => simpa using ok
  | denied w i t p d _ is =>
    rw [claim_refused is]
    exact ok
  | admitted w i t p c _ is =>
    rw [claim_granted is]
    exact ok
  | deferred w n t c obeys =>
    intro task member
    rcases List.mem_append.mp member with member | member
    · exact ok task member
    · obtain rfl := List.mem_singleton.mp member
      exact ⟨obeys, rfl⟩
  | resumed w before task after _ is =>
    intro other member
    refine ok other ?_
    rcases List.mem_append.mp member with member | member
    · simp [is, member]
    · simp [is, member]

/-- What every step keeps holds after any number of them. -/
theorem steps_induction {P : Hold × World ν → Prop} (keeps : ∀ a b, Step allowed a b → P a → P b)
    {a b : Hold × World ν} (steps : Steps allowed a b)
    (tasks : ∀ task ∈ a.2.tasks, task.Obeys allowed) (start : P a) :
    P b ∧ ∀ task ∈ b.2.tasks, task.Obeys allowed := by
  induction steps with
  | refl => exact ⟨start, tasks⟩
  | tail _ step ih => exact ⟨keeps _ _ step ih.1, step.tasks_obey ih.2⟩

theorem play_induction {P : Hold × World ν → Prop} {ms : List Move}
    (ok : ∀ m ∈ ms, m.Obeys allowed ∧ m.forgets = false)
    (keeps : ∀ a b, Step allowed a b → P a → P b) {w : World ν}
    (tasks : ∀ task ∈ w.tasks, task.Obeys allowed) (start : P (.nothing, w)) :
    P (.nothing, w.play ms) := by
  induction ms generalizing w with
  | nil => exact start
  | cons m rest ih =>
    have each := List.forall_mem_cons.mp ok
    have steps := perform_steps each.1.1 each.1.2 tasks
    obtain ⟨next, tidy⟩ := steps_induction keeps steps tasks start
    exact ih each.2 tidy next

end World

end Cuescript
