import Cuescript.Proofs.Execution.Steps

/-!
The life of a node whose policy restricts something, for one target: it is admitted, and then its
guards fail, or it is put off and taken up again, or it runs at once; when it has run, it may be
admitted again as far as the policy allows. Main statement: in every run that forgets nothing, what
the journal says of the pair is such a life, and the store and the tasks agree with it.
-/
namespace Cuescript

variable {ν : Type}

def Deed.isQuestion : Deed → Bool
  | .tested _ => true
  | .matched _ => true
  | _ => false

def World.attempts (w : World ν) (p : Pair) : List Entry :=
  w.journal.filter fun e => (e.node, e.target) = p && !e.deed.isQuestion

def World.waiting (w : World ν) (p : Pair) : List FutureId :=
  (w.tasks.filter fun task => task.claim.pair = p).map (·.done)

inductive Phase where
  | idle
  | granted
  | waiting (task : FutureId)
  | resumed

namespace Phase

def isBusy : Phase → Bool
  | .idle => false
  | _ => true

def mayRun : Phase → Bool
  | .granted => true
  | .resumed => true
  | _ => false

/-- A claim stands either in hand or with a single task. -/
inductive Fits (p : Pair) : Phase → Hold → List FutureId → Prop
  | idle {h : Hold} (free : ∀ c, h.claim? = some c → c.pair ≠ p) : Fits p .idle h []
  | granted : Fits p .granted (.granted ⟨p, true⟩) []
  | waiting {h : Hold} (free : ∀ c, h.claim? = some c → c.pair ≠ p) (task : FutureId) :
      Fits p (.waiting task) h [task]
  | resumed : Fits p .resumed (.resumed ⟨p, true⟩) []

variable {p : Pair} {phase : Phase} {h : Hold} {tasks : List FutureId}

theorem Fits.inHand (fits : phase.Fits p h tasks) {c : Claim} (is : h.claim? = some c)
    (own : c.pair = p) : phase.mayRun = true ∧ c = ⟨p, true⟩ ∧ tasks = [] := by
  cases fits with
  | idle free => exact absurd own (free c is)
  | waiting free => exact absurd own (free c is)
  | granted => exact ⟨rfl, (Option.some.inj is).symm, rfl⟩
  | resumed => exact ⟨rfl, (Option.some.inj is).symm, rfl⟩

theorem Fits.free (fits : phase.Fits p h tasks) (free : ∀ c, h.claim? = some c → c.pair ≠ p) :
    (phase = .idle ∧ tasks = []) ∨ ∃ task, phase = .waiting task ∧ tasks = [task] := by
  cases fits with
  | idle => exact .inl ⟨rfl, rfl⟩
  | waiting _ task => exact .inr ⟨task, rfl, rfl⟩
  | granted => exact absurd rfl (free ⟨p, true⟩ rfl)
  | resumed => exact absurd rfl (free ⟨p, true⟩ rfl)

theorem Fits.inGranted {c : Claim} (fits : phase.Fits p (.granted c) tasks) (own : c.pair = p) :
    phase = .granted := by
  cases fits with
  | idle free => exact absurd own (free c rfl)
  | waiting free => exact absurd own (free c rfl)
  | granted => rfl

end Phase

theorem Hold.nothing_free (p : Pair) (c : Claim) (is : Hold.nothing.claim? = some c) :
    c.pair ≠ p := by cases is

/-- What may be done with a pair under a policy, when it last ran, and where it stands. -/
inductive Life (q : Policy) : List Entry → Option Instant → Phase → Prop
  | blank : Life q [] none .idle
  | admitted {es : List Entry} {last : Option Instant} (life : Life q es last .idle) (e : Entry)
      (is : e.deed = .admitted) (allows : Store.denial? ⟨last, false⟩ q e.time = none) :
      Life q (es ++ [e]) last .granted
  | released {es : List Entry} {last : Option Instant} (life : Life q es last .granted) :
      Life q es last .idle
  | deferred {es : List Entry} {last : Option Instant} (life : Life q es last .granted) (e : Entry)
      (task : FutureId) (is : e.deed = .deferred task) : Life q (es ++ [e]) last (.waiting task)
  | resumed {es : List Entry} {last : Option Instant} {task : FutureId}
      (life : Life q es last (.waiting task)) (e : Entry) (is : e.deed = .resumed task) :
      Life q (es ++ [e]) last .resumed
  | ran {es : List Entry} {last : Option Instant} {phase : Phase} (life : Life q es last phase)
      (may : phase.mayRun = true) (e : Entry) (o : Outcome) (is : e.deed = .ran o) :
      Life q (es ++ [e]) (if o.isFailure then last else some e.time) .idle
  | fired {es : List Entry} {last : Option Instant} (life : Life q es last .granted) (e : Entry)
      (is : e.deed = .fired) : Life q (es ++ [e]) (some e.time) .idle

/-- The journal tells a life of the pair, the store knows when it last ran and whether a claim
stands, and the claim is where it should be. -/
structure Alive (q : Policy) (p : Pair) (last : Option Instant) (phase : Phase) (h : Hold)
    (w : World ν) : Prop where
  life : Life q (w.attempts p) last phase
  record : w.store.record p = ⟨last, phase.isBusy⟩
  fits : phase.Fits p h (w.waiting p)

namespace World

theorem attempts_enter (w : World ν) (i : NodeId) (t : String) {d : Deed} (notes : List String)
    (p : Pair) (acts : d.isQuestion = false) :
    (w.enter i t d notes).attempts p =
      if (i, t) = p then w.attempts p ++ [⟨i, t, w.clock, d, notes⟩] else w.attempts p := by
  simp only [attempts, enter, List.filter_append, List.filter_cons, List.filter_nil, acts]
  by_cases own : (i, t) = p <;> simp [own]

theorem attempts_question (w : World ν) (i : NodeId) (t : String) {d : Deed} (notes : List String)
    (p : Pair) (asks : d.isQuestion = true) : (w.enter i t d notes).attempts p = w.attempts p := by
  simp [attempts, enter, asks]

theorem attempts_test (w : World ν) (n : RequirementNode) (t : Target) (c : Context) (p : Pair) :
    (w.test n t c).2.attempts p = w.attempts p := by
  rw [test]
  split
  · rfl
  · split
    · rfl
    · dsimp only
      split
      · exact attempts_question _ _ _ _ p rfl
      · exact attempts_question _ _ _ _ p rfl

theorem records_test (w : World ν) (n : RequirementNode) (t : Target) (c : Context) :
    (w.test n t c).2.store.records = w.store.records := by
  rw [test]
  split
  · rfl
  · split
    · rfl
    · dsimp only
      split <;> rfl

theorem attempts_claim_refused {w : World ν} {i : NodeId} {t : String} {r : Policy} {d : Denial}
    (is : (w.claim i t r).1 = .error d) (p : Pair) :
    (w.claim i t r).2.attempts p = w.attempts p := by
  rw [claim_refused is]
  rfl

theorem attempts_claim_granted {w : World ν} {i : NodeId} {t : String} {r : Policy} {c : Claim}
    (is : (w.claim i t r).1 = .ok c) (p : Pair) :
    (w.claim i t r).2.attempts p =
      if (i, t) = p then w.attempts p ++ [⟨i, t, w.clock, .admitted, []⟩] else w.attempts p := by
  rw [claim_granted is]
  exact attempts_enter _ i t [] p rfl

theorem attempts_runBody (w : World ν) (s : ActionStep) (t : Target) (c : Context) (p : Pair) :
    (w.runBody s t c).2.attempts p =
      if (s.claim t).pair = p then
        w.attempts p ++ [⟨s.id, t.id, w.clock, .ran (w.runBody s t c).1,
          (s.action.body t.value c).notes⟩]
      else w.attempts p :=
  attempts_enter w s.id t.id _ p rfl

theorem attempts_defer (w : World ν) (n : ActionNode) (t : Target) (c : Context) (p : Pair) :
    (w.defer n t c (n.step.claim t)).2.attempts p =
      if (n.step.claim t).pair = p then
        w.attempts p ++ [⟨n.id, t.id, w.clock, .deferred w.futures.pending.1, []⟩]
      else w.attempts p :=
  attempts_enter _ n.id t.id [] p rfl

theorem attempts_takeUp (w : World ν) (before : List Task) (task : Task) (after : List Task)
    (p : Pair) :
    (w.takeUp before task after).attempts p =
      if (task.node.id, task.target.id) = p then
        w.attempts p ++ [⟨task.node.id, task.target.id, w.clock, .resumed task.done, []⟩]
      else w.attempts p :=
  attempts_enter _ task.node.id task.target.id [] p rfl

theorem attempts_fired (w : World ν) (i : NodeId) (t : String) (r : Policy) (p : Pair) :
    ((w.commit (.of i t r)).enter i t .fired []).attempts p =
      if (Claim.of i t r).pair = p then w.attempts p ++ [⟨i, t, w.clock, .fired, []⟩]
      else w.attempts p :=
  attempts_enter _ i t [] p rfl

theorem waiting_defer (w : World ν) (n : ActionNode) (t : Target) (c : Context) (claim : Claim)
    (p : Pair) :
    (w.defer n t c claim).2.waiting p =
      w.waiting p ++ if claim.pair = p then [w.futures.pending.1] else [] := by
  simp only [waiting, defer, enter, List.filter_append, List.map_append]
  by_cases own : claim.pair = p <;> simp [own]

theorem waiting_split {w : World ν} {before after : List Task} {task : Task}
    (is : w.tasks = before ++ task :: after) (p : Pair) :
    ∃ front back, w.waiting p =
        front ++ (if task.claim.pair = p then [task.done] else []) ++ back ∧
      (w.takeUp before task after).waiting p = front ++ back := by
  refine ⟨(before.filter fun task => task.claim.pair = p).map (·.done),
    (after.filter fun task => task.claim.pair = p).map (·.done), ?_, ?_⟩
  · rw [waiting, is]
    by_cases own : task.claim.pair = p <;> simp [own]
  · simp [waiting, takeUp, enter]

end World

namespace Alive

variable {q : Policy} {p : Pair} {last : Option Instant} {phase : Phase} {w : World ν} {h : Hold}

theorem congr {w' : World ν} (alive : Alive q p last phase h w)
    (attempts : w'.attempts p = w.attempts p) (record : w'.store.record p = w.store.record p)
    (tasks : w'.waiting p = w.waiting p) : Alive q p last phase h w' where
  life := by
    rw [attempts]
    exact alive.life
  record := record.trans alive.record
  fits := by
    rw [tasks]
    exact alive.fits

theorem rehold {h' : Hold} (alive : Alive q p last phase h w)
    (free : ∀ c, h.claim? = some c → c.pair ≠ p) (free' : ∀ c, h'.claim? = some c → c.pair ≠ p) :
    Alive q p last phase h' w where
  life := alive.life
  record := alive.record
  fits := by
    obtain ⟨rfl, none⟩ | ⟨task, rfl, one⟩ := alive.fits.free free
    · exact none ▸ .idle free'
    · exact one ▸ .waiting free' task

variable {i : NodeId} {t : String} {c : Claim}

theorem grant (alive : Alive q p last phase .nothing w) (active : q.isActive = true)
    (is : (w.claim p.1 p.2 q).1 = .ok c) :
    Alive q p last .granted (.granted c) (w.claim p.1 p.2 q).2 := by
  obtain ⟨life, record, fits⟩ := alive
  obtain ⟨rfl, allows⟩ := Store.claim_ok_iff.mp ((w.claim_fst ..).symm.trans is)
  have allows : Store.denial? (w.store.record p) q w.clock = none := allows active
  obtain ⟨rfl, none⟩ | ⟨task, rfl, _⟩ := fits.free (Hold.nothing_free p)
  · refine ⟨?_, ?_, ?_⟩
    · rw [World.attempts_claim_granted is, if_pos rfl]
      exact .admitted life _ rfl (record ▸ allows)
    · rw [World.record_claim, if_pos ⟨rfl, active, allows⟩]
      exact congrArg (fun r : ExecutionRecord => { r with inFlight := true }) record
    · rw [active, World.claim_granted is]
      exact none ▸ .granted
  · -- A record that is in flight admits nothing.
    have free := Store.denial?_inFlight allows
    rw [record] at free
    cases free

theorem grant_other {r : Policy} (alive : Alive q p last phase .nothing w) (other : p ≠ (i, t))
    (is : (w.claim i t r).1 = .ok c) :
    Alive q p last phase (.granted c) (w.claim i t r).2 := by
  obtain ⟨rfl, _⟩ := Store.claim_ok_iff.mp ((w.claim_fst ..).symm.trans is)
  have free : ∀ c, (Hold.granted ⟨(i, t), r.isActive⟩).claim? = some c → c.pair ≠ p := by
    rintro _ ⟨⟩
    exact other.symm
  refine (alive.rehold (Hold.nothing_free p) free).congr ?_ ?_ ?_
  · rw [World.attempts_claim_granted is, if_neg other.symm]
  · rw [World.record_claim, if_neg fun own => other own.1]
  · rw [World.claim_granted is]
    rfl

theorem refuse {r : Policy} {d : Denial} (alive : Alive q p last phase h w)
    (is : (w.claim i t r).1 = .error d) : Alive q p last phase h (w.claim i t r).2 := by
  have denied := (Store.claim_error_iff.mp ((w.claim_fst ..).symm.trans is)).2
  refine alive.congr (World.attempts_claim_refused is p) ?_ ?_
  · rw [World.record_claim, if_neg fun granted => by simp [denied] at granted]
  · rw [World.claim_refused is]
    rfl

theorem settle_other {w' : World ν} (alive : Alive q p last phase h w)
    (inHand : h.claim? = some c) (other : c.pair ≠ p) (attempts : w'.attempts p = w.attempts p)
    (record : w'.store.record p = w.store.record p) (tasks : w'.waiting p = w.waiting p) :
    Alive q p last phase .nothing w' := by
  have free : ∀ c, h.claim? = some c → c.pair ≠ p := by
    intro c' is
    rw [inHand] at is
    exact Option.some.inj is ▸ other
  exact (alive.rehold free (Hold.nothing_free p)).congr attempts record tasks

theorem settle {w' : World ν} (alive : Alive q p last phase h w) (last' : Option Instant)
    (inHand : h.claim? = some c) (tasks : w'.waiting p = w.waiting p)
    (own : c = ⟨p, true⟩ →
      Life q (w'.attempts p) last' .idle ∧ w'.store.record p = ⟨last', false⟩)
    (other : c.pair ≠ p →
      w'.attempts p = w.attempts p ∧ w'.store.record p = w.store.record p) :
    ∃ last phase, Alive q p last phase .nothing w' := by
  by_cases same : c.pair = p
  · obtain ⟨_, is, none⟩ := alive.fits.inHand inHand same
    obtain ⟨life, record⟩ := own is
    refine ⟨last', .idle, life, record, ?_⟩
    rw [tasks, none]
    exact .idle (Hold.nothing_free p)
  · obtain ⟨attempts, record⟩ := other same
    exact ⟨last, phase, alive.settle_other inHand same attempts record tasks⟩

theorem release (alive : Alive q p last phase (.granted c) w) :
    ∃ last phase, Alive q p last phase .nothing (w.release c) := by
  refine alive.settle last rfl rfl (fun is => ?_) (fun other => ⟨rfl, ?_⟩)
  · obtain rfl := alive.fits.inGranted (congrArg Claim.pair is)
    refine ⟨.released alive.life, ?_⟩
    rw [World.record_release, is, if_pos ⟨rfl, rfl⟩, alive.record]
  · rw [World.record_release, if_neg fun same => other same.2.symm]

variable {s : ActionStep} {target : Target}

theorem life_run (alive : Alive q p last phase h w) (inHand : h.claim? = some (s.claim target))
    (own : s.claim target = ⟨p, true⟩) (context : Context) :
    Life q ((w.runBody s target context).2.attempts p)
      (if (w.runBody s target context).1.isFailure then last else some w.clock) .idle := by
  have pair := congrArg Claim.pair own
  have may := (alive.fits.inHand inHand pair).1
  rw [World.attempts_runBody, if_pos pair]
  exact .ran alive.life may _ _ rfl

theorem fail (alive : Alive q p last phase h w) (inHand : h.claim? = some (s.claim target))
    {context : Context} (fails : (w.runBody s target context).1.isFailure = true) :
    ∃ last phase,
      Alive q p last phase .nothing ((w.runBody s target context).2.release (s.claim target)) := by
  refine alive.settle last inHand rfl (fun is => ?_) (fun other => ⟨?_, ?_⟩)
  · have life := alive.life_run inHand is context
    rw [fails, if_pos rfl] at life
    refine ⟨life, ?_⟩
    rw [World.record_release, is, if_pos ⟨rfl, rfl⟩]
    exact congrArg (fun r : ExecutionRecord => { r with inFlight := false }) alive.record
  · exact (w.attempts_runBody ..).trans (if_neg other)
  · rw [World.record_release, if_neg fun same => other same.2.symm]
    rfl

theorem succeed (alive : Alive q p last phase h w) (inHand : h.claim? = some (s.claim target))
    {context : Context} (succeeds : (w.runBody s target context).1.isFailure = false) :
    ∃ last phase,
      Alive q p last phase .nothing ((w.runBody s target context).2.commit (s.claim target)) := by
  refine alive.settle (some w.clock) inHand rfl (fun is => ?_) (fun other => ⟨?_, ?_⟩)
  · have life := alive.life_run inHand is context
    rw [succeeds, if_neg Bool.false_ne_true] at life
    refine ⟨life, ?_⟩
    rw [World.record_commit, is, if_pos ⟨rfl, rfl⟩]
    rfl
  · exact (w.attempts_runBody ..).trans (if_neg other)
  · rw [World.record_commit, if_neg fun same => other same.2.symm]
    rfl

theorem fire {r : Policy} (alive : Alive q p last phase (.granted (.of i t r)) w) :
    ∃ last phase, Alive q p last phase .nothing ((w.commit (.of i t r)).enter i t .fired []) := by
  refine alive.settle (some w.clock) rfl rfl (fun is => ?_) (fun other => ⟨?_, ?_⟩)
  · obtain rfl := alive.fits.inGranted (congrArg Claim.pair is)
    rw [World.attempts_fired, if_pos (congrArg Claim.pair is), World.store_enter,
      World.record_commit, is, if_pos ⟨rfl, rfl⟩]
    exact ⟨.fired alive.life _ rfl, rfl⟩
  · rw [World.attempts_fired, if_neg other]
  · rw [World.store_enter, World.record_commit, if_neg fun same => other same.2.symm]

theorem defer {n : ActionNode} (alive : Alive q p last phase (.granted (n.step.claim target)) w)
    (context : Context) :
    ∃ last phase,
      Alive q p last phase .nothing (w.defer n target context (n.step.claim target)).2 := by
  by_cases own : (n.step.claim target).pair = p
  · obtain rfl := alive.fits.inGranted own
    obtain ⟨_, _, tasks⟩ := alive.fits.inHand rfl own
    refine ⟨last, .waiting (w.futures.pending).1, ?_, alive.record, ?_⟩
    · rw [World.attempts_defer, if_pos own]
      exact .deferred alive.life _ _ rfl
    · rw [World.waiting_defer, if_pos own, tasks]
      exact .waiting (Hold.nothing_free p) _
  · refine ⟨last, phase, alive.settle_other rfl own ?_ rfl ?_⟩
    · exact (w.attempts_defer ..).trans (if_neg own)
    · rw [World.waiting_defer, if_neg own, List.append_nil]

theorem resume {before after : List Task} {task : Task} (alive : Alive q p last phase .nothing w)
    (active : q.isActive = true) (ok : task.Obeys (.only p.1 q))
    (is : w.tasks = before ++ task :: after) :
    ∃ last phase, Alive q p last phase (.resumed task.claim) (w.takeUp before task after) := by
  obtain ⟨front, back, now, later⟩ := World.waiting_split is p
  have attempts := w.attempts_takeUp before task after p
  have pair : task.claim.pair = (task.node.id, task.target.id) := by
    rw [ok.2]
    rfl
  rw [← pair] at attempts
  by_cases own : task.claim.pair = p
  · rw [if_pos own] at now attempts
    -- The pair has a task, so it waits, and with this task alone.
    obtain ⟨_, none⟩ | ⟨done, rfl, one⟩ := alive.fits.free (Hold.nothing_free p)
    · have taken := now.symm.trans none
      simp at taken
    · have taken := now.symm.trans one
      obtain ⟨rfl, rfl, rfl⟩ : front = [] ∧ back = [] ∧ task.done = done := by
        cases front with
        | nil => simpa [and_comm] using taken
        | cons => simp at taken
      have claim : task.claim = ⟨p, true⟩ := by
        have policy := (ActionNode.obeys_iff.mp ok.1).1 (congrArg Prod.fst (pair.symm.trans own))
        rw [ok.2, ActionStep.claim, Claim.of, policy, active]
        exact congrArg (Claim.mk · true) (pair.symm.trans own)
      refine ⟨last, .resumed, ?_, alive.record, ?_⟩
      · rw [attempts]
        exact .resumed alive.life _ rfl
      · rw [later, claim]
        exact .resumed
  · rw [if_neg own] at now attempts
    rw [List.append_nil] at now
    have free : ∀ c, (Hold.resumed task.claim).claim? = some c → c.pair ≠ p := by
      rintro _ ⟨⟩
      exact own
    exact ⟨last, phase, (alive.rehold (Hold.nothing_free p) free).congr attempts rfl
      (later.trans now.symm)⟩

end Alive

namespace World

theorem Step.alive {q : Policy} {p : Pair} (active : q.isActive = true) {a b : Hold × World ν}
    (step : Step (.only p.1 q) a b) (alive : ∃ last phase, Alive q p last phase a.1 a.2) :
    ∃ last phase, Alive q p last phase b.1 b.2 := by
  obtain ⟨last, phase, alive⟩ := alive
  cases step with
  | futures h w futures => exact ⟨last, phase, alive.congr rfl rfl rfl⟩
  | clock w time => exact ⟨last, phase, alive.congr rfl rfl rfl⟩
  | asked h w n t c =>
    refine ⟨last, phase, alive.congr (attempts_test ..) ?_ ?_⟩
    · rw [Store.record, Store.record, records_test]
    · rw [waiting, waiting, tasks_test]
  | matched h w n t d =>
    refine ⟨last, phase, alive.congr ?_ rfl rfl⟩
    exact attempts_question _ _ _ _ p rfl
  | denied w i t r d _ is => exact ⟨last, phase, alive.refuse is⟩
  | admitted w i t r c ok is =>
    by_cases own : p = (i, t)
    · subst own
      obtain rfl := ok rfl
      exact ⟨last, .granted, alive.grant active is⟩
    · exact ⟨last, phase, alive.grant_other own is⟩
  | released w c => exact alive.release
  | deferred w n t c _ => exact alive.defer c
  | resumed w before task after ok is => exact alive.resume active ok is
  | ran h w s t c inHand is => exact alive.succeed inHand is
  | failed h w s t c inHand is => exact alive.fail inHand is
  | fired w i t r => exact alive.fire

/-- After a run that forgets nothing, the journal tells a life of every pair under its policy, and
the store and the tasks agree with it. -/
theorem play_alive {q : Policy} {p : Pair} (active : q.isActive = true) {ms : List Move}
    (ok : ∀ m ∈ ms, m.Obeys (.only p.1 q) ∧ m.forgets = false) (clock : Instant)
    (deferring : Bool) :
    ∃ last phase, Alive q p last phase .nothing ((start clock deferring).play ms : World ν) := by
  have start : ∃ last phase, Alive q p last phase .nothing (start clock deferring : World ν) :=
    ⟨none, .idle, .blank, rfl, .idle (Hold.nothing_free p)⟩
  let P (s : Hold × World ν) : Prop := ∃ last phase, Alive q p last phase s.1 s.2
  exact play_induction (P := P) ok (fun _ _ => Step.alive active) nofun start

end World

end Cuescript
