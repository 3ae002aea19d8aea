import Cuescript.Proofs.Execution.Inquiries

/-!
Requirements that are checked once. The journal tells which outcomes the component of a requirement
has given for a target. Main statement: at every point of a run that forgets nothing, none of these
outcomes but the last can be a success if the requirement is checked once; from then on, and only
from then on, every test succeeds without the component being asked.
-/
namespace Cuescript

variable {ν : Type} {r : RequirementNode} {u : String}

def Entry.result? (r : RequirementNode) (u : String) (e : Entry) : Option Outcome :=
  match e.deed with
  | .tested o => if e.node = r.id ∧ e.target = u then some (World.effective r.config o) else none
  | _ => none

theorem Entry.result?_other {e : Entry} (other : e.deed.isTest = false) : e.result? r u = none := by
  unfold Entry.result?
  split
  · rename_i is
    rw [is] at other
    cases other
  · rfl

namespace World

variable {w w' : World ν}

def results (w : World ν) (r : RequirementNode) (u : String) : List Outcome :=
  w.journal.filterMap (·.result? r u)

/-- The requirement is checked once, and the component has answered with a success. -/
def Settled (w : World ν) (r : RequirementNode) (u : String) : Prop :=
  r.config.checkOnce = true ∧ ∃ o ∈ w.results r u, o.isSuccess = true

structure Memory (r : RequirementNode) (u : String) (w : World ν) : Prop where
  /-- The component is asked until the first success and not after it. -/
  once : r.config.checkOnce = true → ∀ o ∈ (w.results r u).dropLast, o.isSuccess = false
  passed : w.store.hasPassed (r.id, u) = true ↔ w.Settled r u
  settled : w.Settled r u → ∀ (t : Target) (c : Context), r.requirement.accepts = t.type →
    t.id = u → w.test r t c = (.passed, w)
  unsettled : ¬ w.Settled r u → ∀ (t : Target) (c : Context), r.requirement.accepts = t.type →
    t.id = u → (w.test r t c).1 = r.answer t c ∧
      (w.test r t c).2.results r u = w.results r u ++ [r.answer t c]
  foreign : ∀ (t : Target) (c : Context), r.requirement.accepts ≠ t.type →
    w.test r t c = (.empty, w)

theorem results_hear (w : World ν) (n : RequirementNode) (t : Target) (c : Context) :
    (w.hear n t c).results n t.id = w.results n t.id ++ [n.answer t c] := by
  rw [results, journal_hear, List.filterMap_append]
  simp [Entry.result?, results, RequirementNode.answer]

theorem Memory.of_passed (once : r.config.checkOnce = true →
      ∀ o ∈ (w.results r u).dropLast, o.isSuccess = false)
    (passed : w.store.hasPassed (r.id, u) = true ↔ w.Settled r u) : Memory r u w where
  once := once
  passed := passed
  settled is t c accepts same := by
    subst same
    rcases w.test_cases r t c with ⟨other, _⟩ | ⟨_, _, test⟩ | ⟨_, fresh, _⟩
    · exact absurd accepts other
    · exact test
    · simp [is.1, passed.mpr is] at fresh
  unsettled not t c accepts same := by
    subst same
    rcases w.test_cases r t c with ⟨other, _⟩ | ⟨_, known, _⟩ | ⟨_, _, test⟩
    · exact absurd accepts other
    · exact absurd (passed.mp (Bool.and_eq_true_iff.mp known).2) not
    · rw [test]
      exact ⟨rfl, w.results_hear r t c⟩
  foreign t c other := if_pos other

/-- The requirements that a run may ask if `r` is the only one with its id. -/
def Scope.only (r : RequirementNode) : Scope := ⟨fun n _ _ => n.id = r.id → n = r, fun _ => True⟩

theorem results_of_journal {es : List Entry} (added : w'.journal = w.journal ++ es)
    (other : ∀ e ∈ es, e.result? r u = none) : w'.results r u = w.results r u := by
  rw [results, added, List.filterMap_append, List.filterMap_eq_nil_iff.mpr other, List.append_nil,
    results]

theorem Memory.congr (memory : Memory r u w) (results : w'.results r u = w.results r u)
    (passed : w'.store.hasPassed (r.id, u) = w.store.hasPassed (r.id, u)) : Memory r u w' := by
  refine .of_passed ?_ ?_
  · rw [results]
    exact memory.once
  · rw [passed, Settled, results]
    exact memory.passed

theorem Memory.hear (memory : Memory r u w) {t : Target} (same : t.id = u)
    (fresh : (r.config.checkOnce && w.store.hasPassed (r.id, t.id)) = false) (c : Context) :
    Memory r u (w.hear r t c) := by
  subst same
  have results := w.results_hear r t c
  refine .of_passed (fun checkOnce => ?_) ?_
  · -- The requirement has not passed yet, so no outcome so far was a success.
    have unpassed : ¬ w.store.hasPassed (r.id, t.id) = true := by simpa [checkOnce] using fresh
    rw [results, List.dropLast_concat]
    intro o member
    have unsettled : ¬ w.Settled r t.id := fun is => unpassed (memory.passed.mpr is)
    exact Bool.eq_false_iff.mpr fun success => unsettled ⟨checkOnce, o, member, success⟩
  · rw [hasPassed_hear, Settled, results, Bool.or_eq_true, Bool.and_eq_true_iff, memory.passed,
      Settled]
    constructor
    · rintro (⟨checkOnce, success⟩ | ⟨checkOnce, o, member, success⟩)
      · exact ⟨checkOnce, _, List.mem_append_right _ List.mem_cons_self, success⟩
      · exact ⟨checkOnce, o, List.mem_append_left _ member, success⟩
    · rintro ⟨checkOnce, o, member, success⟩
      rcases List.mem_append.mp member with old | new
      · exact .inr ⟨checkOnce, o, old, success⟩
      · cases List.mem_singleton.mp new
        exact .inl ⟨checkOnce, success⟩

theorem Memory.piece (memory : Memory r u w) (piece : Piece (Scope.only r) w w') :
    Memory r u w' := by
  cases piece with
  | done aside =>
    obtain ⟨es, added, each⟩ := aside.journal
    refine memory.congr (results_of_journal added fun e member => ?_) ?_
    · exact Entry.result?_other (each e member).1
    · rw [Store.hasPassed, aside.passed, Store.hasPassed]
  | asked n t c ok =>
    rcases w.test_cases n t c with ⟨_, is⟩ | ⟨_, _, is⟩ | ⟨_, fresh, is⟩
    · rwa [is]
    · rwa [is]
    · by_cases own : n.id = r.id ∧ t.id = u
      · cases ok own.1
        rw [is]
        exact memory.hear own.2 fresh c
      · have other : ¬ (n.id, t.id) = (r.id, u) := fun same => own (Prod.ext_iff.mp same)
        have agree := agreeOn_test (P := (· = (r.id, u))) other w c
        rw [is] at agree ⊢
        refine memory.congr (results_of_journal (journal_hear w n t c) fun e member => ?_)
          (agree.store.hasPassed rfl)
        cases List.mem_singleton.mp member
        exact if_neg own

theorem Memory.pieces (memory : Memory r u w) (pieces : Pieces (Scope.only r) w w') :
    Memory r u w' := by
  induction pieces with
  | refl => exact memory
  | tail _ piece ih => exact ih.piece piece

theorem Pieces.results (pieces : Pieces (Scope.only r) w w') :
    w.results r u <+: w'.results r u := by
  obtain ⟨es, added, _⟩ := pieces.journal
  rw [World.results, World.results, added, List.filterMap_append]
  exact List.prefix_append ..

theorem Memory.forever (memory : Memory r u w) (settled : w.Settled r u)
    (pieces : Pieces (Scope.only r) w w') :
    w'.Settled r u ∧ w'.results r u = w.results r u := by
  obtain ⟨checkOnce, o, member, success⟩ := settled
  obtain ⟨more, grown⟩ := Pieces.results (u := u) pieces
  have once := (memory.pieces pieces).once checkOnce
  rw [Settled, ← grown]
  refine ⟨⟨checkOnce, o, List.mem_append_left _ member, success⟩, ?_⟩
  cases more with
  | nil => exact List.append_nil _
  | cons a more =>
    rw [← grown, List.dropLast_append_cons] at once
    rw [once o (List.mem_append_left _ member)] at success
    cases success

theorem Memory.testEach (memory : Memory r u w) (settled : w.Settled r u)
    {ns : List RequirementNode} (known : ∀ n ∈ ns, n.id = r.id → n = r) {t : Target} {c : Context}
    (accepts : r.requirement.accepts = t.type) (same : t.id = u) {i : Nat}
    (is : ns[i]? = some r) : (w.testEach ns t c).1[i]? = some .passed := by
  induction ns generalizing w i with
  | nil => cases is
  | cons n rest ih =>
    obtain ⟨here, behind⟩ := List.forall_mem_cons.mp known
    have piece : Pieces (Scope.only r) w (w.test n t c).2 := .single (.asked w n t c here)
    cases i with
    | zero =>
      cases is
      show some (w.test r t c).1 = _
      rw [memory.settled settled t c accepts same]
    | succ i => exact ih (memory.pieces piece) (memory.forever settled piece).1 behind is

end World

def ActionNode.requirements (ns : List ActionNode) : List RequirementNode :=
  (membersAll ns).flatMap (·.step.guards)

def TriggerNode.requirements (n : TriggerNode) : List RequirementNode :=
  n.guards ++ ActionNode.requirements n.actions

def Move.requirements : Move → List RequirementNode
  | .test f _ _ => f.requirements
  | .execute f _ _ => ActionNode.requirements f.actions
  | .act n _ _ => ActionNode.requirements [n]
  | .trigger f _ _ => f.triggers.flatMap TriggerNode.requirements
  | .fire n _ _ | .rehearse n _ _ => n.requirements
  | .clock _ | .run _ | .reset _ | .clear => []

namespace World

variable {w w' : World ν} {t : Target} {c : Context}

theorem allIn_only {ns : List ActionNode}
    (known : ∀ n ∈ ActionNode.requirements ns, n.id = r.id → n = r) :
    ActionNode.AllIn (Scope.only r) t c ns :=
  fun m member => ⟨trivial, fun g guard => known g (List.mem_flatMap.mpr ⟨m, member, guard⟩)⟩

theorem fire_only {n : TriggerNode} {d : TriggerData}
    (known : ∀ g ∈ n.requirements, g.id = r.id → g = r) :
    (Errand.fire n d).In (Scope.only r) t c :=
  ⟨⟨trivial, fun g guard => known g (List.mem_append_left _ guard)⟩,
    allIn_only fun g guard => known g (List.mem_append_right _ guard)⟩

theorem perform_only {m : Move} (keeps : m.forgets = false)
    (known : ∀ n ∈ m.requirements, n.id = r.id → n = r)
    (tasks : ∀ task ∈ w.tasks, task.In (Scope.only r)) :
    Pieces (Scope.only r) w (w.perform m) := by
  cases m with
  | test f t c => exact pieces_testAll known w
  | execute f t c => exact call_pieces (m := .execute f t c) rfl (allIn_only known).attempts w
  | act n t c =>
    have within : ActionNode.AllIn (Scope.only r) t c [n] := allIn_only known
    exact call_pieces (m := .act n t c) rfl within.attempts w
  | trigger f t d =>
    refine call_pieces (m := .trigger f t d) rfl (fun e member => ?_) w
    obtain ⟨n, answers, rfl⟩ := List.mem_map.mp member
    refine fire_only fun g guard => known g (List.mem_flatMap.mpr ⟨n, ?_, guard⟩)
    exact (List.mem_filter.mp answers).1
  | fire n t d =>
    refine call_pieces (m := .fire n t d) rfl (fun e member => ?_) w
    cases List.mem_singleton.mp member
    exact fire_only known
  | rehearse n t d => exact testTrigger_pieces (fire_only (c := .ofTrigger d) (d := d) known).1 w
  | clock time => exact (aside_clock w time).pieces
  | run i => exact runTask_pieces tasks i
  | reset target => cases keeps
  | clear => cases keeps

theorem play_only {ms : List Move} (keeps : ∀ m ∈ ms, m.forgets = false)
    (known : ∀ m ∈ ms, ∀ n ∈ m.requirements, n.id = r.id → n = r)
    (tasks : ∀ task ∈ w.tasks, task.In (Scope.only r)) :
    Pieces (Scope.only r) w (w.play ms) := by
  induction ms generalizing w with
  | nil => exact .refl
  | cons m rest ih =>
    obtain ⟨kept, keeps⟩ := List.forall_mem_cons.mp keeps
    obtain ⟨here, known⟩ := List.forall_mem_cons.mp known
    have pieces := perform_only kept here tasks
    exact pieces.trans (ih keeps known (Pieces.tasks pieces tasks))

/-- A run that forgets nothing asks its requirements in pieces. At every point that pieces lead to
it is known of each requirement and target what the component has answered; once it is settled it
stays so, and counts as a success wherever it is asked. -/
theorem play_memory (clock : Instant) (deferring : Bool) (ms : List Move) (r : RequirementNode)
    (u : String) (keeps : ∀ m ∈ ms, m.forgets = false)
    (known : ∀ m ∈ ms, ∀ n ∈ m.requirements, n.id = r.id → n = r) :
    Pieces (Scope.only r) (start clock deferring : World ν)
        ((start clock deferring : World ν).play ms) ∧
      ∀ w, Pieces (Scope.only r) (start clock deferring : World ν) w → Memory r u w ∧
        (w.Settled r u →
          (∀ w', Pieces (Scope.only r) w w' →
            w'.Settled r u ∧ w'.results r u = w.results r u) ∧
          ∀ ns : List RequirementNode, (∀ n ∈ ns, n.id = r.id → n = r) →
            ∀ (t : Target) (c : Context) (i : Nat), ns[i]? = some r →
              r.requirement.accepts = t.type → t.id = u →
                (w.testEach ns t c).1[i]? = some .passed) := by
  refine ⟨play_only keeps known nofun, fun w pieces => ?_⟩
  have nothing : Memory r u (start clock deferring : World ν) := by
    refine .of_passed (fun _ => nofun) ⟨nofun, ?_⟩
    rintro ⟨_, o, member, _⟩
    cases member
  have memory := nothing.pieces pieces
  refine ⟨memory, fun settled => ⟨fun w' later => memory.forever settled later, ?_⟩⟩
  exact fun ns known t c i is accepts same => memory.testEach settled known accepts same is

end World

def weak : RequirementNode :=
  ⟨⟨1⟩, "healthy", ⟨true, true⟩, ⟨.player, fun
    | .player _ health, _ => ⟨[], .ofBool (10 ≤ health)⟩
    | _, _ => ⟨[], .empty⟩⟩⟩

def resting : ActionNode :=
  ⟨⟨⟨0⟩, "rest", .initial, ⟨.player, fun _ _ => ⟨[], .ended .passed⟩⟩, [weak]⟩, []⟩

def calling : TriggerNode :=
  ⟨⟨2⟩, "call", [], .initial, ⟨.player, fun _ _ => ⟨[], .passed⟩⟩, [weak], [resting]⟩

/-- The requirement is asked by itself, before an action, in a dry run, and before an action. -/
def weakening : List Move :=
  [.test ⟨[.requirement weak]⟩ ⟨"steve", .player "steve" 20⟩ .empty,
    .act resting ⟨"steve", .player "steve" 5⟩ .empty,
    .rehearse calling ⟨"steve", .player "steve" 20⟩ (.ofIdentifier "call"),
    .act resting ⟨"steve", .player "steve" 20⟩ .empty]

theorem weakening_known : ∀ m ∈ weakening, ∀ n ∈ m.requirements, n.id = weak.id → n = weak := by
  simp [weakening, Move.requirements, Forest.requirements, ForestNode.requirement?,
    ActionNode.requirements, TriggerNode.requirements, ActionNode.membersAll, ActionNode.members,
    resting, calling]

theorem World.play_memory_weakening :
    (∀ m ∈ weakening, m.forgets = false) ∧
      (∀ m ∈ weakening, ∀ n ∈ m.requirements, n.id = weak.id → n = weak) ∧
      ((start ⟨0⟩ false : World Unit).play weakening).results weak "steve" =
        [.failure [], .success []] ∧
      Memory weak "steve" ((start ⟨0⟩ false : World Unit).play weakening) := by
  have keeps : ∀ m ∈ weakening, m.forgets = false := by simp [weakening, Move.forgets]
  obtain ⟨pieces, points⟩ := play_memory (ν := Unit) ⟨0⟩ false weakening weak "steve" keeps
    weakening_known
  exact ⟨keeps, weakening_known, by decide, (points _ pieces).1⟩

end Cuescript
