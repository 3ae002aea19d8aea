import Cuescript.Execution.Triggers
import Cuescript.Proofs.Forest.Members

/-!
What a caller can do with the runtime, and the runs that are made of it. Claims are kept by the ids
of nodes; so what is said of a node in a run needs that no other node of the run has its id and
another policy.
-/
namespace Cuescript

inductive Move where
  | test (f : Forest) (t : Target) (c : Context)
  | execute (f : Forest) (t : Target) (c : Context)
  | act (n : ActionNode) (t : Target) (c : Context)
  | trigger (f : Forest) (t : Target) (d : TriggerData)
  | fire (n : TriggerNode) (t : Target) (d : TriggerData)
  | rehearse (n : TriggerNode) (t : Target) (d : TriggerData)
  | clock (time : Instant)
  | run (index : Nat)
  | reset (target : String)
  | clear

def Move.forgets : Move → Bool
  | .reset _ => true
  | .clear => true
  | _ => false

inductive Answer where
  | combined (c : Combined)
  | outcome (o : Outcome)
  | future (f : FutureId)

namespace World

variable {ν : Type}

def perform (w : World ν) : Move → World ν
  | .test f t c => (w.testForest f t c).2
  | .execute f t c => (w.execute f t c).2
  | .act n t c => (n.execute t c w).2
  | .trigger f t d => (w.trigger f t d).2
  | .fire n t d => (w.fire n t d).2
  | .rehearse n t d => (w.testTrigger n t d).2
  | .clock time => w.setClock time
  | .run index => w.runTask index
  | .reset target => { w with store := w.store.resetTarget target }
  | .clear => { w with store := w.store.clear }

def answer? (w : World ν) : Move → Option Answer
  | .test f t c => some (.combined (w.testForest f t c).1)
  | .execute f t c => some (.future (w.execute f t c).1)
  | .act n t c => some (.future (n.execute t c w).1)
  | .trigger f t d => some (.future (w.trigger f t d).1)
  | .fire n t d => some (.future (w.fire n t d).1)
  | .rehearse n t d => some (.outcome (w.testTrigger n t d).1)
  | _ => none

def play (w : World ν) (ms : List Move) : World ν := ms.foldl perform w

end World

abbrev Allowance := NodeId → Policy → Prop

/-- The nodes with one id all have one policy; nothing is said of the others. -/
def Allowance.only (x : NodeId) (q : Policy) : Allowance := fun i p => i = x → p = q

variable {allowed : Allowance}

namespace ActionNode

def ObeyAll (allowed : Allowance) (ns : List ActionNode) : Prop :=
  ∀ m ∈ membersAll ns, allowed m.id m.step.config.policy

def Obeys (allowed : Allowance) (n : ActionNode) : Prop :=
  ∀ m ∈ n.members, allowed m.id m.step.config.policy

theorem obeys_iff {n : ActionNode} :
    n.Obeys allowed ↔ allowed n.id n.step.config.policy ∧ ObeyAll allowed n.children := by
  simp [Obeys, ObeyAll, mem_members, or_imp, forall_and]

theorem obeyAll_cons {n : ActionNode} {rest : List ActionNode} :
    ObeyAll allowed (n :: rest) ↔ n.Obeys allowed ∧ ObeyAll allowed rest := by
  simp [Obeys, ObeyAll, membersAll, or_imp, forall_and]

theorem obeyAll_iff {ns : List ActionNode} : ObeyAll allowed ns ↔ ∀ n ∈ ns, n.Obeys allowed := by
  induction ns with
  | nil => simp [ObeyAll, membersAll]
  | cons n rest ih => simp [obeyAll_cons, ih]

end ActionNode

def TriggerNode.Obeys (allowed : Allowance) (n : TriggerNode) : Prop :=
  allowed n.id n.config.policy ∧ ActionNode.ObeyAll allowed n.actions

def Forest.Obeys (allowed : Allowance) (f : Forest) : Prop :=
  (∀ n ∈ f.actions, n.Obeys allowed) ∧ ∀ n ∈ f.triggers, n.Obeys allowed

def Move.Obeys (allowed : Allowance) : Move → Prop
  | .execute f _ _ => f.Obeys allowed
  | .act n _ _ => n.Obeys allowed
  | .trigger f _ _ => f.Obeys allowed
  | .fire n _ _ => n.Obeys allowed
  | _ => True

end Cuescript
