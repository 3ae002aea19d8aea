import Cuescript.Proofs.Execution.Dates
import Cuescript.Proofs.Execution.Memories
import Cuescript.Proofs.Execution.Prompt

/-!
The dry run of a trigger beside its firing. Both ask the same questions, and the claim of the firing
has no bearing on the answers. Main statement: if the policy of the trigger admits the target, the
firing ends at once where the dry run fails, and is otherwise the outcome of the dry run joined with
those of the actions; the guards are remembered alike.
-/
namespace Cuescript

variable {ν : Type}

namespace World

variable {w w' v v' : World ν} {t : Target} {c : Context} {ways : Wiring}

/-- Two worlds at one time in which the same requirements have passed. -/
structure AsksAlike (w v : World ν) : Prop where
  clock : v.clock = w.clock
  passed : v.store.passed = w.store.passed

theorem AsksAlike.test (alike : AsksAlike w v) (n : RequirementNode) (t : Target) (c : Context) :
    (v.test n t c).1 = (w.test n t c).1 ∧ AsksAlike (w.test n t c).2 (v.test n t c).2 := by
  have known : v.store.hasPassed (n.id, t.id) = w.store.hasPassed (n.id, t.id) := by
    rw [Store.hasPassed, alike.passed, Store.hasPassed]
  refine ⟨test_congr c known, ?_⟩
  rw [World.test, World.test, known]
  split
  · exact alike
  · split
    · exact alike
    · dsimp only
      split
      · refine ⟨alike.clock, ?_⟩
        show v.store.passed.set _ v.clock = w.store.passed.set _ w.clock
        rw [alike.clock, alike.passed]
      · exact ⟨alike.clock, alike.passed⟩

theorem AsksAlike.testAll (alike : AsksAlike w v) (ns : List RequirementNode) (t : Target)
    (c : Context) :
    (v.testAll ns t c).1 = (w.testAll ns t c).1 ∧
      AsksAlike (w.testAll ns t c).2 (v.testAll ns t c).2 :=
  testAll_relates (fun n _ _ _ alike => alike.test n t c) alike

theorem asksAlike_claim (w : World ν) (i : NodeId) (u : String) (q : Policy) :
    AsksAlike w (w.claim i u q).2 :=
  ⟨(agreeOn_claim (P := fun _ => False) id w q).clock, w.passed_claim i u q⟩

theorem asksAlike_askAt (w : World ν) (g : Gate) (t : Target) (c : Context) :
    (w.askAt g t c).1 = (w.testAll g.guards t c).1 ∧
      AsksAlike (w.testAll g.guards t c).2 (w.askAt g t c).2 :=
  (asksAlike_claim w g.id t.id g.policy).testAll g.guards t c

/-- Asking the requirement once more would change nothing. -/
def Heeded (n : RequirementNode) (t : Target) (c : Context) (w : World ν) : Prop :=
  n.requirement.accepts = t.type → (n.config.checkOnce && (n.answer t c).isSuccess) = true →
    w.store.hasPassed (n.id, t.id) = true

theorem heeded_test (w : World ν) (n : RequirementNode) (t : Target) (c : Context) :
    Heeded n t c (w.test n t c).2 := by
  intro accepts marks
  rcases w.test_cases n t c with ⟨other, _⟩ | ⟨_, known, is⟩ | ⟨_, _, is⟩
  · exact absurd accepts other
  · rw [is]
    exact (Bool.and_eq_true_iff.mp known).2
  · rw [is, hasPassed_hear, marks]
    rfl

theorem Heeded.test {n : RequirementNode} (heeded : Heeded n t c w) :
    (w.test n t c).2.store.passed = w.store.passed := by
  rcases w.test_cases n t c with ⟨_, is⟩ | ⟨_, _, is⟩ | ⟨accepts, fresh, is⟩
  · rw [is]
  · rw [is]
  · rw [is, hear]
    dsimp only
    split
    · rename_i marks
      have passed := heeded accepts marks
      obtain ⟨checkOnce, _⟩ := Bool.and_eq_true_iff.mp marks
      simp [checkOnce, passed] at fresh
    · rfl

theorem Heeded.congr {n : RequirementNode} (heeded : Heeded n t c w)
    (same : v.store.passed.get? (n.id, t.id) = w.store.passed.get? (n.id, t.id)) :
    Heeded n t c v := by
  intro accepts marks
  rw [Store.hasPassed, Table.contains, same]
  exact heeded accepts marks

theorem Heeded.pieces {n : RequirementNode} {s : Scope} (heeded : Heeded n t c w)
    (pieces : Pieces s w w')
    (own : ∀ n' t' c', s.asks n' t' c' → n'.id = n.id → t'.id = t.id → n' = n ∧ t' = t ∧ c' = c) :
    w'.store.passed.get? (n.id, t.id) = w.store.passed.get? (n.id, t.id) := by
  induction pieces with
  | refl => rfl
  | @tail v v' _ piece ih =>
    rw [← ih]
    cases piece with
    | asked n' t' c' ok =>
      by_cases same : (n'.id, t'.id) = (n.id, t.id)
      · obtain ⟨rfl, rfl, rfl⟩ := own n' t' c' ok (Prod.ext_iff.mp same).1 (Prod.ext_iff.mp same).2
        rw [(heeded.congr ih).test]
      · exact (agreeOn_test (P := (· = (n.id, t.id))) same v c').store.passed _ rfl
    | done aside => rw [aside.passed]

theorem heeded_testAll {ns : List RequirementNode} {n : RequirementNode} (member : n ∈ ns)
    (w : World ν) (t : Target) (c : Context) : Heeded n t c (w.testAll ns t c).2 := by
  rw [testAll]
  induction ns generalizing w with
  | nil => cases member
  | cons n' rest ih =>
    rcases List.mem_cons.mp member with rfl | behind
    · have pieces : Pieces ⟨fun _ _ _ => True, fun _ => True⟩ (w.test n t c).2
          ((w.test n t c).2.testAll rest t c).2 := pieces_testAll (fun _ _ => trivial) _
      exact fun accepts marks => Pieces.hasPassed pieces (w.heeded_test n t c accepts marks)
    · exact ih behind _

/-! The firing of a trigger. -/

theorem testTrigger_eq {n : TriggerNode} {d : TriggerData} (accepts : n.trigger.accepts = t.type)
    (isMatch : (w.matchData n t d).1.isFailure = false) :
    w.testTrigger n t d = (((w.matchData n t d).2.testAll n.guards t (.ofTrigger d)).1.outcome,
      ((w.matchData n t d).2.testAll n.guards t (.ofTrigger d)).2) := by
  rw [testTrigger, if_neg (not_not_intro accepts)]
  exact if_neg (Bool.eq_false_iff.mp isMatch)

theorem testTrigger_unmatched {n : TriggerNode} {d : TriggerData}
    (accepts : n.trigger.accepts = t.type) (fails : (w.matchData n t d).1.isFailure = true) :
    w.testTrigger n t d = w.matchData n t d := by
  rw [testTrigger, if_neg (not_not_intro accepts)]
  exact if_pos fails

/-- With its claim granted, a trigger is turned away with the outcome of a dry run that fails, and
what has passed is the same, or it fires. -/
theorem quits_or_fires {n : TriggerNode} {d : TriggerData} {claim : Claim}
    (granted : (w.claim n.id t.id n.config.policy).1 = .ok claim) :
    ((n.trigger.accepts ≠ t.type ∨ (w.testTrigger n t d).1.isFailure = true) ∧
        ∃ w', Quits t (.ofTrigger d) w (.fire n d) (w.testTrigger n t d).1 w' ∧
          w'.store.passed = (w.testTrigger n t d).2.store.passed) ∨
      (Fires n t d w ∧ (w.afterFiring n t d).1 = (w.testTrigger n t d).1 ∧
        (w.testTrigger n t d).1.isFailure = false ∧
          (w.afterFiring n t d).2.store.passed = (w.testTrigger n t d).2.store.passed) := by
  by_cases accepts : n.trigger.accepts = t.type
  · cases matched : (w.matchData n t d).1.isFailure with
    | true =>
      rw [testTrigger_unmatched accepts matched]
      exact .inl ⟨.inr matched, _, .unmatched n d accepts matched, rfl⟩
    | false =>
      rw [testTrigger_eq accepts matched]
      -- The match leaves a line in the journal only: what was granted before it is granted after it.
      have admitted : ((w.matchData n t d).2.claimAt n.gate t).1 =
          .ok (.of n.id t.id n.config.policy) := by
        obtain rfl := claim_eq_of granted
        rw [claim_fst] at granted
        rw [claimAt, claim_fst]
        exact granted
      obtain ⟨guards, alike⟩ := asksAlike_askAt (w.matchData n t d).2 n.gate t (.ofTrigger d)
      cases fails : ((w.matchData n t d).2.askAt n.gate t (.ofTrigger d)).1.isFailure with
      | true =>
        have stops := Stops.unmet admitted fails
        rw [guards] at stops fails
        rw [Combined.isFailure_outcome] at fails
        refine .inl ⟨.inr fails, _, .silent n d accepts matched stops, ?_⟩
        exact (Store.passed_release ..).trans alike.passed
      | false =>
        refine .inr ⟨⟨accepts, matched, admitted, fails⟩, congrArg Combined.outcome guards, ?_, ?_⟩
        · rw [guards, Combined.isFailure_outcome] at fails
          exact fails
        · exact (Store.passed_commit ..).trans alike.passed
  · rw [testTrigger, if_pos accepts]
    exact .inl ⟨.inl accepts, w, .foreign n d accepts, rfl⟩

structure Halts (w : World ν) (fired : FutureId × World ν) (o : Outcome) : Prop where
  outcome : fired.2.futures.value? fired.1 = some o
  tasks : fired.2.tasks = w.tasks
  bodies : fired.2.bodies = w.bodies
  dates : ∀ p, fired.2.store.lastExecution p = w.store.lastExecution p

theorem Quits.halts {e : Errand} {o : Outcome} (quits : Quits t c w e o w')
    (engaged : w.Engaged ways) : Halts w (w'.completed o) o where
  outcome := by
    have wired := engaged.wired
    rw [← quits.quiet.futures] at wired
    simpa using (Prompt.completed w' o).values wired
  tasks := quits.quiet.tasks
  bodies := quits.bodies
  dates := quits.dates

/-- A future that joins a given outcome with others, whatever happens after. -/
theorem Engaged.value?_later {f : FutureId} {o x : Outcome} {gs : List FutureId}
    {es : List Prospect} (engaged : w.Engaged ways)
    (reads : ways.Reads f (.all (.given o :: es))) (parts : List.Forall₂ ways.Reads gs es)
    (later : List Move) :
    (w.play later).futures.value? f = some x ↔
      ∃ os : List Outcome, gs.map (w.play later).futures.value? = os.map some ∧
        x = o.both (Outcome.all os) := by
  obtain ⟨ways', σ, engaged, substitution, kept⟩ := engaged.play_reads later
  have reads := kept f _ reads
  have parts : List.Forall₂ ways'.Reads gs (es.map σ) :=
    List.forall₂_map_right_iff.mpr (parts.imp fun _ _ => kept _ _)
  rw [substitution.all, List.map_cons, substitution.given] at reads
  rw [engaged.wired.value?_eq reads, engaged.wired.values_eq parts, Prospect.value?,
    Prospect.eval_all _ f, Join.result?_eq_some_iff, List.map_cons, Prospect.eval]
  constructor
  · rintro ⟨os, places, rfl⟩
    obtain ⟨own, others, rfl, is, rest⟩ := List.map_eq_cons_iff.mp places.symm
    cases is
    exact ⟨others, rest.symm, Outcome.all_cons ..⟩
  · rintro ⟨os, rest, rfl⟩
    exact ⟨o :: os, congrArg (some o :: ·) rest, (Outcome.all_cons ..).symm⟩

theorem Fires.course {n : TriggerNode} {d : TriggerData} (fires : Fires n t d w) :
    let own := (w.afterFiring n t d).2.completed (w.afterFiring n t d).1
    ∃ fs es w', Course t (.ofTrigger d) own.2 (n.actions.map .attempt) fs es w' ∧
      ActionNode.executeEach n.actions t (.ofTrigger d) own.2 = (fs, w') ∧
        w.fire n t d = w'.all (own.1 :: fs) := by
  intro own
  obtain ⟨fs, es, w', course⟩ := feasible_attempts t (.ofTrigger d) n.actions own.2
  have followed := course.follow_eq
  refine ⟨fs, es, w', course, ?_, perform_fires (c := .ofTrigger d) fires followed⟩
  rw [← follow_attempts, followed]

theorem Fires.joins {n : TriggerNode} {d : TriggerData} (fires : Fires n t d w)
    (engaged : w.Engaged ways) :
    let own := (w.afterFiring n t d).2.completed (w.afterFiring n t d).1
    let done := ActionNode.executeEach n.actions t (.ofTrigger d) own.2
    w.fire n t d = done.2.all (own.1 :: done.1) ∧
      ∀ later o, ((w.fire n t d).2.play later).futures.value? (w.fire n t d).1 = some o ↔
        ∃ os : List Outcome,
          done.1.map ((w.fire n t d).2.play later).futures.value? = os.map some ∧
            o = (w.afterFiring n t d).1.both (Outcome.all os) := by
  intro own done
  obtain ⟨fs, es, w', course, executed, fired⟩ := fires.course
  have is : done = (fs, w') := executed
  rw [is]
  refine ⟨fired, fun later o => ?_⟩
  rw [fired]
  have engaged := engaged.quiet (quiet_afterFiring w n t d)
  have first := grows_completed engaged.wired (w.afterFiring n t d).1
  obtain ⟨more, new, grows⟩ := course.grows first.wired
  obtain ⟨ways', engaged, reads, parts⟩ := engaged.join (first.append grows)
  exact engaged.value?_later reads (List.forall₂_cons.mp parts).2 later

theorem Fires.passed {n : TriggerNode} {d : TriggerData} (fires : Fires n t d w)
    {g : RequirementNode} (guard : g ∈ n.guards)
    (known : ∀ g' ∈ ActionNode.requirements n.actions, g'.id = g.id → g' = g) :
    (w.fire n t d).2.store.passed.get? (g.id, t.id) =
      (w.afterFiring n t d).2.store.passed.get? (g.id, t.id) := by
  obtain ⟨fs, es, w', course, _, fired⟩ := fires.course
  let asked : Scope := ⟨fun g' t' c' => g' ∈ ActionNode.requirements n.actions ∧ t' = t ∧
    c' = .ofTrigger d, fun _ => True⟩
  -- The actions may ask a guard of the trigger again, but of this target and in this context.
  have inside : ActionNode.AllIn asked t (.ofTrigger d) n.actions := fun m member =>
    ⟨trivial, fun g' guard' => ⟨List.mem_flatMap.mpr ⟨m, member, guard'⟩, rfl, rfl⟩⟩
  have pieces : Pieces asked (w.afterFiring n t d).2 (w.fire n t d).2 := by
    rw [fired]
    have below := course.pieces inside.attempts
    exact .trans (aside_futures ..).pieces (.trans below (aside_futures ..).pieces)
  have heeded : Heeded g t (.ofTrigger d) (w.afterFiring n t d).2 :=
    (heeded_testAll guard _ t _).congr (congrArg (Table.get? · _) (Store.passed_commit ..))
  exact heeded.pieces pieces fun g' t' c' ask same _ => ⟨known g' ask.1 same, ask.2⟩

structure Rehearsed (n : TriggerNode) (t : Target) (d : TriggerData) (w : World ν) : Prop where
  halts : n.trigger.accepts ≠ t.type ∨ (w.testTrigger n t d).1.isFailure = true →
    Halts w (w.fire n t d) (w.testTrigger n t d).1
  /-- The outcome is that of the dry run joined with those of the actions in their order. -/
  goes : n.trigger.accepts = t.type → (w.testTrigger n t d).1.isFailure = false →
    let own := (w.afterFiring n t d).2.completed (w.testTrigger n t d).1
    let done := ActionNode.executeEach n.actions t (.ofTrigger d) own.2
    w.fire n t d = done.2.all (own.1 :: done.1) ∧
      ∀ later o, ((w.fire n t d).2.play later).futures.value? (w.fire n t d).1 = some o ↔
        ∃ os : List Outcome,
          done.1.map ((w.fire n t d).2.play later).futures.value? = os.map some ∧
            o = (w.testTrigger n t d).1.both (Outcome.all os)
  passed : ∀ g ∈ n.guards, (w.fire n t d).2.store.passed.get? (g.id, t.id) =
    (w.testTrigger n t d).2.store.passed.get? (g.id, t.id)

theorem Quits.rehearsed {n : TriggerNode} {d : TriggerData} (engaged : w.Engaged ways)
    (fails : n.trigger.accepts ≠ t.type ∨ (w.testTrigger n t d).1.isFailure = true)
    (quits : Quits t (.ofTrigger d) w (.fire n d) (w.testTrigger n t d).1 w')
    (passed : w'.store.passed = (w.testTrigger n t d).2.store.passed) : Rehearsed n t d w := by
  have fired : w.fire n t d = w'.completed (w.testTrigger n t d).1 := perform_quits quits
  refine ⟨fun _ => ?_, fun accepts succeeds => ?_, fun g _ => ?_⟩
  · rw [fired]
    exact quits.halts engaged
  · rcases fails with other | fails
    · exact absurd accepts other
    · rw [succeeds] at fails
      cases fails
  · rw [fired]
    show w'.store.passed.get? _ = _
    rw [passed]

theorem Fires.rehearsed {n : TriggerNode} {d : TriggerData} (fires : Fires n t d w)
    (engaged : w.Engaged ways)
    (known : ∀ g ∈ n.guards, ∀ g' ∈ ActionNode.requirements n.actions, g'.id = g.id → g' = g)
    (outcome : (w.afterFiring n t d).1 = (w.testTrigger n t d).1)
    (succeeds : (w.testTrigger n t d).1.isFailure = false)
    (passed : (w.afterFiring n t d).2.store.passed = (w.testTrigger n t d).2.store.passed) :
    Rehearsed n t d w := by
  refine ⟨fun fails => ?_, fun _ _ => ?_, fun g guard => ?_⟩
  · rcases fails with other | fails
    · exact absurd fires.accepts other
    · rw [succeeds] at fails
      cases fails
  · rw [← outcome]
    exact fires.joins engaged
  · rw [fires.passed guard (known g guard), passed]

structure Refused (n : TriggerNode) (t : Target) (d : TriggerData) (denial : Denial)
    (w : World ν) : Prop where
  halts : Halts w (w.fire n t d) (.failed denial.message)
  journal : (w.fire n t d).2.journal = (w.matchData n t d).2.journal
  passed : (w.fire n t d).2.store.passed = w.store.passed

theorem Engaged.refused {n : TriggerNode} {d : TriggerData} {denial : Denial}
    (engaged : w.Engaged ways) (accepts : n.trigger.accepts = t.type)
    (isMatch : (w.matchData n t d).1.isFailure = false)
    (denied : (w.claim n.id t.id n.config.policy).1 = .error denial) : Refused n t d denial w := by
  have denied : ((w.matchData n t d).2.claim n.id t.id n.config.policy).1 = .error denial := by
    rw [claim_fst] at denied ⊢
    exact denied
  have quits : Quits t (.ofTrigger d) w (.fire n d) (.failed denial.message)
      ((w.matchData n t d).2.claim n.id t.id n.config.policy).2 :=
    .silent n d accepts isMatch (.denied denial denied)
  have fired : w.fire n t d = _ := perform_quits quits
  refine ⟨?_, ?_, ?_⟩
  · rw [fired]
    exact quits.halts engaged
  · rw [fired, claim_refused denied]
    rfl
  · rw [fired]
    exact passed_claim ..

end World

/-- A trigger with a cooldown, and the guard of its action as its own. -/
def ringing : TriggerNode :=
  ⟨⟨3⟩, "ring", [], ⟨.ofSeconds 60, false⟩, ⟨.player, fun _ _ => ⟨[], .success ["ring"]⟩⟩, [weak],
    [resting]⟩

def rung (health : Nat) : World Unit :=
  (World.start ⟨0⟩ false).play
    [.fire ringing ⟨"steve", .player "steve" health⟩ (.ofIdentifier "ring")]

theorem ringing_known :
    ∀ g ∈ ringing.guards, ∀ g' ∈ ActionNode.requirements ringing.actions,
      g'.id = g.id → g' = g := by
  simp [ringing, ActionNode.requirements, ActionNode.membersAll, ActionNode.members, resting]

end Cuescript
