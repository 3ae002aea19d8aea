import Cuescript.Proofs.Execution.Regions
import Cuescript.Proofs.Execution.Waiting

/-!
What is asked in a run. A run falls into pieces: in one kind a requirement is asked, and in the
other nothing is done with requirements or with what is remembered of them. Main statement: a call
asks the guards of its nodes and nothing else, and does nothing else with other nodes.
-/
namespace Cuescript

variable {ν : Type}

def Deed.isTest : Deed → Bool
  | .tested _ => true
  | _ => false

/-- What may be asked in a run, and the nodes that it may do something with. -/
structure Scope where
  asks : RequirementNode → Target → Context → Prop
  owns : NodeId → Prop

variable {s : Scope} {t : Target} {c : Context}

def Gate.In (s : Scope) (t : Target) (c : Context) (g : Gate) : Prop :=
  s.owns g.id ∧ ∀ n ∈ g.guards, s.asks n t c

def ActionNode.AllIn (s : Scope) (t : Target) (c : Context) (ns : List ActionNode) : Prop :=
  ∀ m ∈ membersAll ns, m.step.gate.In s t c

def Errand.In (s : Scope) (t : Target) (c : Context) : Errand → Prop
  | .attempt n => n.step.gate.In s t c ∧ ActionNode.AllIn s t c n.children
  | .run n claim => s.owns n.id ∧ s.owns claim.pair.1 ∧ ActionNode.AllIn s t c n.children
  | .fire n d => n.gate.In s t (.ofTrigger d) ∧ ActionNode.AllIn s t (.ofTrigger d) n.actions

def Task.In (s : Scope) (task : Task) : Prop :=
  (Errand.run task.node task.claim).In s task.target task.context

theorem ActionNode.AllIn.attempts {ns : List ActionNode} (inside : AllIn s t c ns) :
    ∀ e ∈ ns.map Errand.attempt, e.In s t c := by
  intro e member
  obtain ⟨n, known, rfl⟩ := List.mem_map.mp member
  have below (m : ActionNode) (m_in : m ∈ n.members) : m.step.gate.In s t c :=
    inside m (mem_membersAll.mpr ⟨n, known, m_in⟩)
  exact ⟨below n (mem_members.mpr (.inl rfl)), fun m m_in => below m (mem_members.mpr (.inr m_in))⟩

namespace World

variable {w w' w'' : World ν}

def Adds (Q : Entry → Prop) (w w' : World ν) : Prop :=
  ∃ es, w'.journal = w.journal ++ es ∧ ∀ e ∈ es, Q e

namespace Adds

variable {Q Q' : Entry → Prop}

theorem nothing (same : w'.journal = w.journal) : Adds Q w w' :=
  ⟨[], same.trans (List.append_nil _).symm, nofun⟩

theorem line {e : Entry} (added : w'.journal = w.journal ++ [e]) (holds : Q e) : Adds Q w w' :=
  ⟨[e], added, List.forall_mem_singleton.mpr holds⟩

theorem trans (first : Adds Q w w') (second : Adds Q w' w'') : Adds Q w w'' := by
  obtain ⟨es, here, each⟩ := first
  obtain ⟨es', there, each'⟩ := second
  refine ⟨es ++ es', by rw [there, here, List.append_assoc], fun e member => ?_⟩
  exact (List.mem_append.mp member).elim (each e) (each' e)

theorem mono (adds : Adds Q w w') (less : ∀ e, Q e → Q' e) : Adds Q' w w' := by
  obtain ⟨es, added, each⟩ := adds
  exact ⟨es, added, fun e member => less e (each e member)⟩

end Adds

/-- Nothing is asked between two worlds, and nothing is done with other nodes. -/
structure Aside (s : Scope) (w w' : World ν) : Prop where
  records : ∀ p : Pair, ¬ s.owns p.1 → w'.store.records.get? p = w.store.records.get? p
  passed : w'.store.passed = w.store.passed
  journal : Adds (fun e => e.deed.isTest = false ∧ s.owns e.node) w w'
  tasks : ∀ task ∈ w'.tasks, task ∈ w.tasks ∨ task.In s

namespace Aside

theorem refl (s : Scope) (w : World ν) : Aside s w w :=
  ⟨fun _ _ => rfl, rfl, .nothing rfl, fun _ => .inl⟩

theorem trans (first : Aside s w w') (second : Aside s w' w'') : Aside s w w'' where
  records p other := (second.records p other).trans (first.records p other)
  passed := second.passed.trans first.passed
  journal := first.journal.trans second.journal
  tasks task member := (second.tasks task member).elim (first.tasks task) .inr

end Aside

theorem aside_enter (w : World ν) {i : NodeId} (own : s.owns i) (u : String) {d : Deed}
    (other : d.isTest = false) (notes : List String) : Aside s w (w.enter i u d notes) where
  records _ _ := rfl
  passed := rfl
  journal := .line rfl ⟨other, own⟩
  tasks _ := .inl

theorem aside_futures (w : World ν) (futures : Futures ν) :
    Aside s w { w with futures := futures } :=
  ⟨fun _ _ => rfl, rfl, .nothing rfl, fun _ => .inl⟩

theorem aside_clock (w : World ν) (time : Instant) : Aside s w (w.setClock time) :=
  ⟨fun _ _ => rfl, rfl, .nothing rfl, fun _ => .inl⟩

theorem aside_store (w : World ν) {store : Store}
    (same : w.store.SameOn (fun p => ¬ s.owns p.1) store) (passed : store.passed = w.store.passed) :
    Aside s w { w with store := store } :=
  ⟨same.records, passed, .nothing rfl, fun _ => .inl⟩

theorem aside_claim (w : World ν) {i : NodeId} (own : s.owns i) (u : String) (q : Policy) :
    Aside s w (w.claim i u q).2 := by
  have store : Aside s w { w with store := (w.store.claim (i, u) q w.clock).2 } :=
    aside_store w (Store.sameOn_claim (not_not_intro own) ..) (Store.passed_claim ..)
  cases is : (w.claim i u q).1 with
  | error d =>
    rw [claim_refused is]
    exact store.trans ⟨fun _ _ => rfl, rfl, .nothing rfl, fun _ => .inl⟩
  | ok claim =>
    rw [claim_granted is]
    exact store.trans (aside_enter _ own u rfl [])

theorem aside_release (w : World ν) {claim : Claim} (own : s.owns claim.pair.1) :
    Aside s w (w.release claim) :=
  aside_store w (Store.sameOn_release (not_not_intro own) _) (Store.passed_release ..)

theorem aside_commit (w : World ν) {claim : Claim} (own : s.owns claim.pair.1) :
    Aside s w (w.commit claim) :=
  aside_store w (Store.sameOn_commit (not_not_intro own) ..) (Store.passed_commit ..)

theorem aside_matchData (w : World ν) {n : TriggerNode} (own : s.owns n.id) (t : Target)
    (d : TriggerData) : Aside s w (w.matchData n t d).2 := aside_enter w own t.id rfl _

theorem aside_afterBody (w : World ν) {n : ActionNode} {claim : Claim}
    (inside : (Errand.run n claim).In s t c) : Aside s w (w.afterBody n t c claim) := by
  have ran : Aside s w (w.runBody n.step t c).2 := aside_enter w inside.1 t.id rfl _
  refine ran.trans ?_
  rw [afterBody]
  dsimp only
  split
  · exact aside_release _ inside.2.1
  · exact aside_commit _ inside.2.1

theorem aside_defer (w : World ν) {n : ActionNode} (inside : (Errand.attempt n).In s t c) :
    Aside s w (w.defer n t c (n.step.claim t)).2 := by
  have own : s.owns n.id := inside.1.1
  obtain ⟨records, passed, journal, _⟩ := aside_enter w own t.id
    (d := .deferred w.futures.pending.1) rfl []
  refine ⟨records, passed, journal, fun task member => ?_⟩
  rcases List.mem_append.mp member with old | new
  · exact .inl old
  · cases List.mem_singleton.mp new
    -- The task that was put off is about this node and those below it.
    exact .inr ⟨own, own, inside.2⟩

theorem aside_takeUp {before after : List Task} {task : Task} (own : s.owns task.node.id)
    (is : w.tasks = before ++ task :: after) : Aside s w (w.takeUp before task after) := by
  obtain ⟨records, passed, journal, _⟩ := aside_enter w own task.target.id
    (d := .resumed task.done) rfl []
  refine ⟨records, passed, journal, fun other member => .inl ?_⟩
  rcases List.mem_append.mp member with member | member
  · simp [is, member]
  · simp [is, member]

inductive Piece (s : Scope) : World ν → World ν → Prop
  | asked (w : World ν) (n : RequirementNode) (t : Target) (c : Context) (ok : s.asks n t c) :
      Piece s w (w.test n t c).2
  | done {w w' : World ν} (aside : Aside s w w') : Piece s w w'

abbrev Pieces (s : Scope) : World ν → World ν → Prop := Relation.ReflTransGen (Piece s)

theorem Aside.pieces (aside : Aside s w w') : Pieces s w w' := .single (.done aside)

theorem pieces_testAll {ns : List RequirementNode} (ok : ∀ n ∈ ns, s.asks n t c) (w : World ν) :
    Pieces s w (w.testAll ns t c).2 :=
  testAll_leads (fun _ => .refl) .trans
    (fun n member w => .single (.asked w n t c (ok n member))) w

theorem pieces_askAt {g : Gate} (inside : g.In s t c) (w : World ν) :
    Pieces s w (w.askAt g t c).2 :=
  .trans (aside_claim w inside.1 t.id g.policy).pieces (pieces_testAll inside.2 _)

theorem pieces_afterFiring {n : TriggerNode} {d : TriggerData}
    (inside : n.gate.In s t (.ofTrigger d)) (w : World ν) : Pieces s w (w.afterFiring n t d).2 := by
  have own : s.owns n.id := inside.1
  refine .trans (aside_matchData w own t d).pieces (.trans (pieces_askAt inside _) ?_)
  exact ((aside_commit _ own).trans (aside_enter _ own t.id rfl [])).pieces

theorem Stops.pieces {g : Gate} {o : Outcome} (stops : Stops g t c w o w')
    (inside : g.In s t c) : Pieces s w w' := by
  cases stops with
  | denied d is => exact (aside_claim w inside.1 t.id g.policy).pieces
  | unmet granted fails =>
    exact .trans (pieces_askAt inside w) (aside_release _ inside.1).pieces

theorem Quits.pieces {e : Errand} {o : Outcome} (quits : Quits t c w e o w')
    (inside : e.In s t c) : Pieces s w w' := by
  cases quits with
  | other | foreign => exact .refl
  | stopped n accepts stops => exact stops.pieces inside.1
  | unmatched n d => exact (aside_matchData w inside.1.1 t d).pieces
  | silent n d accepts isMatch stops =>
    exact .trans (aside_matchData w inside.1.1 t d).pieces (stops.pieces inside.1)

theorem Course.pieces {errands : List Errand} {fs : List FutureId} {es : List Prospect}
    (course : Course t c w errands fs es w') (inside : ∀ e ∈ errands, e.In s t c) :
    Pieces s w w' := by
  induction course with
  | done w => exact .refl
  | quits quits _ behind =>
    obtain ⟨here, others⟩ := List.forall_mem_cons.mp inside
    exact .trans (quits.pieces here) (.trans (aside_futures ..).pieces (behind others))
  | @deferred w _ n _ _ _ _ _ _ behind =>
    obtain ⟨here, others⟩ := List.forall_mem_cons.mp inside
    exact .trans (pieces_askAt here.1 w) (.trans (aside_defer _ here).pieces (behind others))
  | @entered w _ n _ _ _ _ _ _ behind =>
    obtain ⟨here, others⟩ := List.forall_mem_cons.mp inside
    have run : (Errand.run n (n.step.claim t)).In s t c := ⟨here.1.1, here.1.1, here.2⟩
    exact .trans (pieces_askAt here.1 w) (behind (List.forall_mem_cons.mpr ⟨run, others⟩))
  | @failed w _ n claim _ _ _ _ _ behind =>
    obtain ⟨here, others⟩ := List.forall_mem_cons.mp inside
    have behind := (aside_futures ..).pieces.trans (behind others)
    exact .trans (aside_afterBody w here).pieces behind
  | @ran w _ _ n claim _ _ _ _ _ _ _ _ below behind =>
    obtain ⟨here, others⟩ := List.forall_mem_cons.mp inside
    have inner := (aside_futures ..).pieces.trans (below here.2.2.attempts)
    have around := (aside_futures ..).pieces.trans (behind others)
    exact .trans (aside_afterBody w here).pieces (.trans inner around)
  | @fired w _ _ n d _ _ _ _ _ context _ _ _ below behind =>
    obtain ⟨here, others⟩ := List.forall_mem_cons.mp inside
    have inner := (aside_futures ..).pieces.trans (below (context ▸ here.2).attempts)
    have around := (aside_futures ..).pieces.trans (behind others)
    exact .trans (pieces_afterFiring here.1 w) (.trans inner around)

theorem call_pieces {m : Move} {errands : List Errand} (is : m.call? = some (t, c, errands))
    (inside : ∀ e ∈ errands, e.In s t c) (w : World ν) : Pieces s w (w.perform m) := by
  obtain ⟨fs, es, w', course, performed, _⟩ := call_course is w
  rw [performed]
  exact .trans (course.pieces inside) (aside_futures ..).pieces

theorem testTrigger_pieces {n : TriggerNode} {d : TriggerData}
    (inside : n.gate.In s t (.ofTrigger d)) (w : World ν) : Pieces s w (w.testTrigger n t d).2 := by
  have matched := (aside_matchData w inside.1 t d).pieces
  rw [testTrigger]
  split
  · exact .refl
  · dsimp only
    split
    · exact matched
    · exact .trans matched (pieces_testAll inside.2 _)

theorem runTask_pieces {w : World ν} (tasks : ∀ task ∈ w.tasks, task.In s) (i : Nat) :
    Pieces s w (w.runTask i) := by
  cases found : w.tasks[i]? with
  | none =>
    rw [runTask, found]
  | some task =>
    obtain ⟨f, e, w', course, ran⟩ := runTask_course found
    have inside := tasks task (List.mem_of_getElem? found)
    have taken := aside_takeUp inside.1 (tasks_around found).symm
    rw [ran]
    refine .trans taken.pieces (.trans (course.pieces ?_) (aside_futures ..).pieces)
    intro e member
    cases List.mem_singleton.mp member
    exact inside

/-! What pieces leave behind. -/

theorem Piece.tasks (piece : Piece s w w') (inside : ∀ task ∈ w.tasks, task.In s) :
    ∀ task ∈ w'.tasks, task.In s := by
  cases piece with
  | asked n t c =>
    rw [tasks_test]
    exact inside
  | done aside => exact fun task member => (aside.tasks task member).elim (inside task) id

theorem Pieces.tasks (pieces : Pieces s w w') (inside : ∀ task ∈ w.tasks, task.In s) :
    ∀ task ∈ w'.tasks, task.In s := by
  induction pieces with
  | refl => exact inside
  | tail _ piece ih => exact piece.tasks ih

theorem Pieces.records (pieces : Pieces s w w') {p : Pair} (other : ¬ s.owns p.1) :
    w'.store.records.get? p = w.store.records.get? p := by
  induction pieces with
  | refl => rfl
  | tail _ piece ih =>
    cases piece with
    | asked n t c => rw [records_test, ih]
    | done aside => rw [aside.records p other, ih]

theorem Pieces.passed (pieces : Pieces s w w') {p : Pair}
    (other : ∀ n t c, s.asks n t c → (n.id, t.id) ≠ p) :
    w'.store.passed.get? p = w.store.passed.get? p := by
  induction pieces with
  | refl => rfl
  | tail _ piece ih =>
    cases piece with
    | asked n t c ok =>
      have apart : ¬ p = (n.id, t.id) := fun same => other n t c ok same.symm
      rw [← ih]
      exact (agreeOn_test (P := (p = ·)) apart _ c).store.passed p rfl
    | done aside => rw [aside.passed, ih]

end World

def Entry.In (s : Scope) (e : Entry) : Prop :=
  (e.deed.isTest = true ∧ ∃ n t c, s.asks n t c ∧ e.node = n.id ∧ e.target = t.id) ∨
    (e.deed.isTest = false ∧ s.owns e.node)

def RequirementNode.answer (n : RequirementNode) (t : Target) (c : Context) : Outcome :=
  World.effective n.config (n.requirement.test t.value c).result

namespace World

variable {w w' : World ν}

def hear (w : World ν) (n : RequirementNode) (t : Target) (c : Context) : World ν :=
  let report := n.requirement.test t.value c
  let w := w.enter n.id t.id (.tested report.result) report.notes
  if n.config.checkOnce && (n.answer t c).isSuccess then
    { w with store := w.store.markPassed (n.id, t.id) w.clock }
  else w

theorem test_cases (w : World ν) (n : RequirementNode) (t : Target) (c : Context) :
    (n.requirement.accepts ≠ t.type ∧ w.test n t c = (.empty, w)) ∨
      (n.requirement.accepts = t.type ∧
        (n.config.checkOnce && w.store.hasPassed (n.id, t.id)) = true ∧
          w.test n t c = (.passed, w)) ∨
      (n.requirement.accepts = t.type ∧
        (n.config.checkOnce && w.store.hasPassed (n.id, t.id)) = false ∧
          w.test n t c = (n.answer t c, w.hear n t c)) := by
  by_cases accepts : n.requirement.accepts = t.type
  · refine .inr ?_
    cases known : n.config.checkOnce && w.store.hasPassed (n.id, t.id) with
    | true => exact .inl ⟨accepts, rfl, (if_neg (not_not_intro accepts)).trans (if_pos known)⟩
    | false =>
      refine .inr ⟨accepts, rfl, ?_⟩
      refine (if_neg (not_not_intro accepts)).trans ((if_neg (by simp [known])).trans ?_)
      by_cases marks : (n.config.checkOnce && (n.answer t c).isSuccess) = true
      · exact (if_pos marks).trans (congrArg (Prod.mk _) (if_pos marks).symm)
      · exact (if_neg marks).trans (congrArg (Prod.mk _) (if_neg marks).symm)
  · exact .inl ⟨accepts, if_pos accepts⟩

theorem journal_hear (w : World ν) (n : RequirementNode) (t : Target) (c : Context) :
    (w.hear n t c).journal = w.journal ++
      [⟨n.id, t.id, w.clock, .tested (n.requirement.test t.value c).result,
        (n.requirement.test t.value c).notes⟩] := by
  unfold hear
  split <;> rfl

theorem hasPassed_hear (w : World ν) (n : RequirementNode) (t : Target) (c : Context) :
    (w.hear n t c).store.hasPassed (n.id, t.id) =
      (n.config.checkOnce && (n.answer t c).isSuccess || w.store.hasPassed (n.id, t.id)) := by
  unfold hear
  split
  · rename_i marks
    show (Table.get? (Table.set ..) _).isSome = _
    rw [Table.get?_set, if_pos rfl, marks]
    rfl
  · rename_i plain
    rw [Bool.eq_false_iff.mpr plain, Bool.false_or]
    rfl

theorem Pieces.hasPassed (pieces : Pieces s w w') {p : Pair} (passed : w.store.hasPassed p = true) :
    w'.store.hasPassed p = true := by
  induction pieces with
  | refl => exact passed
  | @tail v v' _ piece ih =>
    cases piece with
    | asked n t c =>
      by_cases own : (n.id, t.id) = p
      · subst own
        rcases v.test_cases n t c with ⟨_, is⟩ | ⟨_, _, is⟩ | ⟨_, _, is⟩
        · rw [is, ih]
        · rw [is, ih]
        · rw [is, hasPassed_hear, ih, Bool.or_true]
      · rw [(agreeOn_test (P := (· = p)) own v c).store.hasPassed rfl, ih]
    | done aside => rw [Store.hasPassed, aside.passed, ← Store.hasPassed, ih]

theorem Piece.journal (piece : Piece s w w') : Adds (·.In s) w w' := by
  cases piece with
  | asked n t c ok =>
    rcases w.test_cases n t c with ⟨_, is⟩ | ⟨_, _, is⟩ | ⟨_, _, is⟩
    · exact .nothing (by rw [is])
    · exact .nothing (by rw [is])
    · exact .line (by rw [is, journal_hear]) (.inl ⟨rfl, n, t, c, ok, rfl, rfl⟩)
  | done aside => exact aside.journal.mono fun e => .inr

theorem Pieces.journal (pieces : Pieces s w w') : Adds (·.In s) w w' := by
  induction pieces with
  | refl => exact .nothing rfl
  | tail _ piece ih => exact ih.trans piece.journal

end World

end Cuescript
