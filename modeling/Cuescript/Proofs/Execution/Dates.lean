import Cuescript.Proofs.Execution.Exclusion
import Cuescript.Proofs.Execution.Ledger
import Cuescript.Proofs.Execution.Waiting

/-!
When a node was last executed. An attempt that is turned away and a body that fails date nothing; a
node that completes is dated by the clock, and what fails below it leaves the date as it is. Main
statement: after every run that forgets nothing, a node whose policy restricts something is dated by
its last completion for the target, and a node without such a policy has no record.
-/
namespace Cuescript

variable {ν : Type}

theorem lastTime_append (es es' : List Entry) :
    lastTime (es ++ es') = (lastTime es').or (lastTime es) := by
  rw [lastTime, lastTime, lastTime, List.filter_append, List.getLast?_append, Option.map_or]

namespace World

variable {w w' w'' : World ν} {t : Target} {c : Context}

/-- Between two worlds the clock stood still, and no node was dated otherwise than by the clock. -/
structure Still (w w' : World ν) : Prop where
  clock : w'.clock = w.clock
  dates : ∀ p, w'.store.lastExecution p = w.store.lastExecution p ∨
    w'.store.lastExecution p = some w.clock

theorem Still.refl (w : World ν) : Still w w := ⟨rfl, fun _ => .inl rfl⟩

theorem Still.trans (first : Still w w') (second : Still w' w'') : Still w w'' where
  clock := second.clock.trans first.clock
  dates p := by
    rcases second.dates p with same | now
    · rw [same]
      exact first.dates p
    · exact .inr (now.trans (congrArg some first.clock))

theorem Still.behind (still : Still w' w'') (clock : w'.clock = w.clock)
    (store : w'.store = w.store) : Still w w'' := by
  refine ⟨still.clock.trans clock, ?_⟩
  rw [← clock, ← store]
  exact still.dates

theorem lastExecution_askAt (w : World ν) (g : Gate) (t : Target) (c : Context) (p : Pair) :
    (w.askAt g t c).2.store.lastExecution p = w.store.lastExecution p := by
  rw [Store.lastExecution, askAt, record_testAll]
  exact last_claim w g.id t.id g.policy p

theorem lastExecution_release (w : World ν) (claim : Claim) (p : Pair) :
    (w.release claim).store.lastExecution p = w.store.lastExecution p := by
  rw [Store.lastExecution, record_release]
  split <;> rfl

theorem lastExecution_commit (w : World ν) (claim : Claim) (p : Pair) :
    (w.commit claim).store.lastExecution p =
      if claim.tracked = true ∧ p = claim.pair then some w.clock else w.store.lastExecution p := by
  rw [Store.lastExecution, record_commit]
  split <;> rfl

theorem still_askAt (w : World ν) (g : Gate) (t : Target) (c : Context) :
    Still w (w.askAt g t c).2 where
  clock := by
    have claimed : Effect [g.id] [] [] w (w.claimAt g t).2 :=
      effect_claim w List.mem_cons_self t.id g.policy
    have asked : Effect [] (g.guards.map (·.id)) [] _ (w.askAt g t c).2 :=
      effect_testAll (w.claimAt g t).2 g.guards t c (List.Subset.refl _)
    exact asked.clock.trans claimed.clock
  dates p := .inl (lastExecution_askAt w g t c p)

theorem still_commit (w : World ν) (claim : Claim) : Still w (w.commit claim) where
  clock := rfl
  dates p := by
    rw [lastExecution_commit]
    split
    · exact .inr rfl
    · exact .inl rfl

theorem still_afterBody (w : World ν) (n : ActionNode) (t : Target) (c : Context) (claim : Claim) :
    Still w (w.afterBody n t c claim) := by
  rw [afterBody]
  dsimp only
  split
  · exact ⟨rfl, fun p => .inl (lastExecution_release _ claim p)⟩
  · exact (still_commit (w.runBody n.step t c).2 claim).behind rfl rfl

theorem still_afterFiring (w : World ν) (n : TriggerNode) (t : Target) (d : TriggerData) :
    Still w (w.afterFiring n t d).2 := by
  have asked := still_askAt (w.matchData n t d).2 n.gate t (.ofTrigger d)
  have fired := asked.trans (still_commit _ (.of n.id t.id n.config.policy))
  exact ⟨fired.clock, fired.dates⟩

theorem Stops.dates {g : Gate} {o : Outcome} (stops : Stops g t c w o w') (p : Pair) :
    w'.store.lastExecution p = w.store.lastExecution p := by
  cases stops with
  | denied d is => exact last_claim w g.id t.id g.policy p
  | unmet granted fails =>
    rw [lastExecution_release]
    exact lastExecution_askAt w g t c p

theorem Quits.dates {e : Errand} {o : Outcome} (quits : Quits t c w e o w') (p : Pair) :
    w'.store.lastExecution p = w.store.lastExecution p := by
  cases quits with
  | other | foreign | unmatched => rfl
  | stopped n accepts stops => exact stops.dates p
  | silent n d accepts isMatch stops => exact stops.dates p

theorem Stops.clock {g : Gate} {o : Outcome} (stops : Stops g t c w o w') : w'.clock = w.clock := by
  cases stops with
  | denied d is => exact (@effect_claim _ [g.id] [] w g.id List.mem_cons_self t.id g.policy).clock
  | unmet granted fails => exact (still_askAt w g t c).clock

theorem Quits.still {e : Errand} {o : Outcome} (quits : Quits t c w e o w') : Still w w' := by
  refine ⟨?_, fun p => .inl (quits.dates p)⟩
  cases quits with
  | other | foreign | unmatched => rfl
  | stopped n accepts stops => exact stops.clock
  | silent n d accepts isMatch stops => exact stops.clock

theorem Course.still {errands : List Errand} {fs : List FutureId} {es : List Prospect}
    (course : Course t c w errands fs es w') : Still w w' := by
  induction course with
  | done w => exact .refl w
  | quits quits _ behind => exact quits.still.trans (behind.behind rfl rfl)
  | @deferred w _ n _ _ _ _ _ _ behind =>
    exact (still_askAt w n.step.gate t c).trans (behind.behind rfl rfl)
  | @entered w _ n _ _ _ _ _ _ behind => exact (still_askAt w n.step.gate t c).trans behind
  | @failed w _ n claim _ _ _ _ _ behind =>
    exact (still_afterBody w n t c claim).trans (behind.behind rfl rfl)
  | @ran w _ _ n claim _ _ _ _ _ _ _ _ below behind =>
    have inside := (still_afterBody w n t c claim).trans (below.behind rfl rfl)
    exact inside.trans (behind.behind rfl rfl)
  | @fired w _ _ n d _ _ _ _ _ _ _ _ _ below behind =>
    have inside := (still_afterFiring w n t d).trans (below.behind rfl rfl)
    exact inside.trans (behind.behind rfl rfl)

/-- What becomes of the dates in one attempt, at whatever point of a run it is made. -/
structure Attempted (w : World ν) : Prop where
  /-- Another type of target, data that do not match, a denial, a failed guard. -/
  turnedAway : ∀ t c e o w', Quits t c w e o w' →
    ∀ p, (e.perform t c w).2.store.lastExecution p = w.store.lastExecution p
  failed : ∀ (n : ActionNode) t c claim, (w.runBody n.step t c).1.isFailure = true →
    ∀ p, (n.run t c claim w).2.store.lastExecution p = w.store.lastExecution p
  /-- Whatever becomes of the children. -/
  ran : ∀ (n : ActionNode) t c, n.step.config.policy.isActive = true →
    (w.runBody n.step t c).1.isFailure = false →
      (n.run t c (n.step.claim t) w).2.store.lastExecution (n.id, t.id) = some w.clock
  /-- Whatever becomes of the actions. -/
  fired : ∀ (n : TriggerNode) t d, n.config.policy.isActive = true → Fires n t d w →
    (w.fire n t d).2.store.lastExecution (n.id, t.id) = some w.clock

theorem Still.dated {p : Pair} {now : Instant} (still : Still w w') (clock : w.clock = now)
    (dated : w.store.lastExecution p = some now) : w'.store.lastExecution p = some now := by
  rcases still.dates p with same | again
  · exact same.trans dated
  · exact again.trans (congrArg some clock)

theorem attempted (w : World ν) : w.Attempted where
  turnedAway t c e o w' quits p := by
    rw [perform_quits quits]
    exact quits.dates p
  failed n t c claim fails p := by
    have ran := perform_fails fails claim
    rw [Errand.perform] at ran
    have after : w.afterBody n t c claim = (w.runBody n.step t c).2.release claim := if_pos fails
    rw [ran, after]
    exact lastExecution_release _ claim p
  ran n t c active succeeds := by
    obtain ⟨gs, ds, w', course⟩ := feasible_attempts t c n.children
      ((w.afterBody n t c (n.step.claim t)).completed (w.runBody n.step t c).1).2
    have ran := perform_succeeds succeeds course.follow_eq
    rw [Errand.perform] at ran
    rw [ran]
    refine course.still.dated (still_afterBody w n t c (n.step.claim t)).clock ?_
    have after : w.afterBody n t c (n.step.claim t) =
        (w.runBody n.step t c).2.commit (n.step.claim t) := if_neg (Bool.eq_false_iff.mp succeeds)
    rw [after]
    exact (lastExecution_commit _ (n.step.claim t) _).trans (if_pos ⟨active, rfl⟩)
  fired n t d active fires := by
    obtain ⟨gs, ds, w', course⟩ := feasible_attempts t (.ofTrigger d) n.actions
      ((w.afterFiring n t d).2.completed (w.afterFiring n t d).1).2
    have fired := perform_fires (c := .ofTrigger d) fires course.follow_eq
    rw [Errand.perform] at fired
    rw [fired]
    have clock := (still_afterFiring w n t d).clock
    refine course.still.dated clock ?_
    rw [← clock]
    exact (lastExecution_commit _ (.of n.id t.id n.config.policy) _).trans (if_pos ⟨active, rfl⟩)

variable {allowed : Allowance}

theorem journal_test (w : World ν) (n : RequirementNode) (t : Target) (c : Context) :
    w.journal <+: (w.test n t c).2.journal := by
  rw [test]
  split
  · exact List.prefix_rfl
  · split
    · exact List.prefix_rfl
    · dsimp only
      split <;> exact List.prefix_append ..

theorem Step.journal {a b : Hold × World ν} (step : Step allowed a b) :
    a.2.journal <+: b.2.journal := by
  cases step with
  | futures | clock | released => exact List.prefix_rfl
  | asked h w n t c => exact journal_test w n t c
  | matched | deferred | resumed | ran | failed | fired => exact List.prefix_append ..
  | denied w i t p d _ is =>
    simp only [claim_refused is, List.prefix_rfl]
  | admitted w i t p c ok is =>
    rw [claim_granted is]
    exact List.prefix_append ..

theorem Orderly.journal (orderly : w.Orderly) {m : Move} (keeps : m.forgets = false) :
    w.journal <+: (w.perform m).journal := by
  have along : ∀ {a b : Hold × World ν}, Steps (fun _ _ => True) a b →
      a.2.journal <+: b.2.journal := by
    intro a b steps
    induction steps with
    | refl => exact List.prefix_rfl
    | tail _ step ih => exact ih.trans step.journal
  exact along (perform_steps (obeys_any m) keeps orderly.tasks)

/-- A pair of a node without an active policy has no record, and no claim on it would make one. -/
def Unrecorded (p : Pair) (a : Hold × World ν) : Prop :=
  a.2.store.records.contains p = false ∧
    ∀ c, a.1.claim? = some c → c.pair = p → c.tracked = false

theorem Unrecorded.nothing {w : World ν} {p : Pair} (none : w.store.records.contains p = false) :
    Unrecorded p (.nothing, w) := by
  refine ⟨none, fun c inHand => ?_⟩
  cases inHand

theorem Step.unrecorded {q : Policy} {p : Pair} (inactive : q.isActive = false)
    {a b : Hold × World ν} (step : Step (.only p.1 q) a b) (un : Unrecorded p a) :
    Unrecorded p b := by
  obtain ⟨none, untracked⟩ := un
  have settled : ∀ {h : Hold} {c : Claim}, h.claim? = some c →
      (∀ c, h.claim? = some c → c.pair = p → c.tracked = false) →
      (c.tracked && decide (p = c.pair)) = false := by
    intro h c inHand untracked
    by_cases own : p = c.pair
    · rw [untracked c inHand own.symm, Bool.false_and]
    · simp [own]
  have of_node : ∀ {i : NodeId} {t : String} {r : Policy}, (i = p.1 → r = q) →
      (Claim.of i t r).pair = p → (Claim.of i t r).tracked = false := by
    rintro i t r only rfl
    exact (congrArg Policy.isActive (only rfl)).trans inactive
  cases step with
  | futures | matched | clock => exact ⟨none, untracked⟩
  | asked h w n t c =>
    refine ⟨?_, untracked⟩
    rw [records_test]
    exact none
  | denied w i t r d _ is =>
    apply Unrecorded.nothing
    rw [contains_claim, none, Bool.or_false, Bool.and_eq_false_imp, decide_eq_true_eq]
    rintro rfl
    -- A pair without a record is never denied.
    rw [claim_fst, Store.claim_error_iff, Store.record,
      Option.not_isSome_iff_eq_none.mp (Bool.eq_false_iff.mp none)] at is
    cases is.2
  | admitted w i t r c ok is =>
    obtain rfl := claim_eq_of is
    refine ⟨?_, ?_⟩
    · rw [contains_claim, none, Bool.or_false, Bool.and_eq_false_imp, decide_eq_true_eq]
      rintro rfl
      exact (congrArg Policy.isActive (ok rfl)).trans inactive
    · rintro _ ⟨⟩
      exact of_node ok
  | released w c =>
    exact .nothing ((Store.contains_release w.store c p).trans none)
  | deferred w n t c ok => exact .nothing none
  | resumed w before task after ok is =>
    refine ⟨none, ?_⟩
    rintro _ ⟨⟩
    rw [ok.2]
    exact of_node (ActionNode.obeys_iff.mp ok.1).1
  | ran h w s t c inHand is =>
    refine .nothing ((Store.contains_commit w.store (s.claim t) w.clock p).trans ?_)
    rw [settled inHand untracked, none]
    rfl
  | failed h w s t c inHand is =>
    exact .nothing ((Store.contains_release w.store (s.claim t) p).trans none)
  | fired w i t r =>
    refine .nothing ((Store.contains_commit w.store (.of i t r) w.clock p).trans ?_)
    rw [settled rfl untracked, none]
    rfl

structure Dated (q : Policy) (p : Pair) (w : World ν) (ms : List Move) : Prop where
  /-- The date is the time of the last body that did not fail, or of the last firing. -/
  last : q.isActive = true →
    (w.play ms).store.lastExecution p = lastTime ((w.play ms).attempts p)
  /-- A move in which the node does not complete leaves the date as it was. -/
  moves : q.isActive = true → ∀ before m after, ms = before ++ m :: after →
    ∃ es, (w.play (before ++ [m])).attempts p = (w.play before).attempts p ++ es ∧
      (w.play (before ++ [m])).store.lastExecution p =
        (lastTime es).or ((w.play before).store.lastExecution p)
  attempts : ∀ w' : World ν, w'.Attempted
  unrecorded : q.isActive = false → (w.play ms).store.records.get? p = none

end World

/-- An action with a cooldown, and a child that crashes. -/
def crashing : ActionNode :=
  ⟨⟨⟨0⟩, "light", ⟨.ofSeconds 60, .zero, false⟩, ⟨.player, fun _ _ => ⟨[], .ended .passed⟩⟩, []⟩,
    [⟨⟨⟨1⟩, "blow", ⟨.zero, .zero, true⟩, ⟨.player, fun _ _ => ⟨[], .crashed none⟩⟩, []⟩, []⟩]⟩

/-- It runs, is denied after a second, and runs again after a minute. -/
def rekindled : List Move :=
  [.act crashing ⟨"steve", .player "steve" 20⟩ .empty, .clock (.ofSeconds 1),
    .act crashing ⟨"steve", .player "steve" 20⟩ .empty, .clock (.ofSeconds 60),
    .act crashing ⟨"steve", .player "steve" 20⟩ .empty]

theorem rekindled_obeys :
    ∀ m ∈ rekindled, m.Obeys (.only ⟨0⟩ ⟨.ofSeconds 60, false⟩) ∧ m.forgets = false := by
  simp [rekindled, Move.Obeys, Move.forgets, ActionNode.Obeys, ActionNode.mem_members, crashing,
    ActionNode.membersAll, ActionNode.members, Allowance.only, ActionConfig.policy, ActionNode.id]

end Cuescript
