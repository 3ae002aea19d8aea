import Cuescript.Execution.Guards

/-!
Actions run for a target. An action of another type of target does nothing. Otherwise it claims
its entry in the store, its guards are asked, and it runs at once or after its delay; its children
follow if its body did not fail. Failed guards and failed bodies give the claim back.
-/
namespace Cuescript

variable {ν : Type}

namespace World

/-- Decides on an action up to its body: `run` goes on at once, `later` after the delay. -/
def attempt (w : World ν) (s : ActionStep) (t : Target) (c : Context)
    (run later : Claim → World ν → FutureId × World ν) : FutureId × World ν :=
  if s.action.accepts ≠ t.type then w.completed .empty
  else
    match w.claim s.id t.id s.config.policy with
    | (.error d, w) => w.completed (.failed d.message)
    | (.ok claim, w) =>
      let (guards, w) := w.testAll s.guards t c
      if guards.isFailure then (w.release claim).completed guards.outcome
      else if w.deferring && !s.config.delay.isZero then later claim w
      else run claim w

def runBody (w : World ν) (s : ActionStep) (t : Target) (c : Context) : Outcome × World ν :=
  let report := s.action.body t.value c
  let o := report.result.outcome
  (o, w.enter s.id t.id (.ran o) report.notes)

end World

namespace ActionNode

mutual

/-- Runs the body under its claim, and then the children unless the body failed. -/
def run (n : ActionNode) (t : Target) (c : Context) (claim : Claim) (w : World ν) :
    FutureId × World ν :=
  match n with
  | ⟨step, children⟩ =>
    let (o, w) := w.runBody step t c
    if o.isFailure then (w.release claim).completed o
    else
      let (own, w) := (w.commit claim).completed o
      let (others, w) := executeEach children t c w
      w.all (own :: others)
termination_by structural n

def executeEach (ns : List ActionNode) (t : Target) (c : Context) (w : World ν) :
    List FutureId × World ν :=
  match ns with
  | [] => ([], w)
  | n :: rest =>
    let (f, w) := w.attempt n.step t c (fun claim w => run n t c claim w)
      (fun claim w => w.defer n t c claim)
    let (fs, w) := executeEach rest t c w
    (f :: fs, w)
termination_by structural ns

end

def execute (n : ActionNode) (t : Target) (c : Context) (w : World ν) : FutureId × World ν :=
  w.attempt n.step t c (fun claim w => n.run t c claim w) (fun claim w => w.defer n t c claim)

end ActionNode

namespace World

def execute (w : World ν) (f : Forest) (t : Target) (c : Context) : FutureId × World ν :=
  let (fs, w) := ActionNode.executeEach f.actions t c w
  w.all fs

def runTask (w : World ν) (index : Nat) : World ν :=
  match w.tasks[index]? with
  | none => w
  | some task =>
    let w := { w with tasks := w.tasks.eraseIdx index }
    let w := w.enter task.node.id task.target.id (.resumed task.done) []
    let (f, w) := task.node.run task.target task.context task.claim w
    w.onComplete f (.relay task.done)

end World

end Cuescript
