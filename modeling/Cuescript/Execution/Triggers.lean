import Cuescript.Execution.Actions

/-!
Triggers fired for a target. A trigger that does not match its data, is not admitted by its policy,
or has a failing guard sets nothing off. A dry run asks the same questions and leaves the policy
alone.
-/
namespace Cuescript.World

variable {ν : Type}

def matchData (w : World ν) (n : TriggerNode) (t : Target) (d : TriggerData) : Outcome × World ν :=
  let report := n.trigger.test t.value d
  (report.result, w.enter n.id t.id (.matched report.result) report.notes)

/-- What firing a trigger would say before its actions, without firing it. -/
def testTrigger (w : World ν) (n : TriggerNode) (t : Target) (d : TriggerData) :
    Outcome × World ν :=
  if n.trigger.accepts ≠ t.type then (.empty, w)
  else
    let (matched, w) := w.matchData n t d
    if matched.isFailure then (matched, w)
    else
      let (guards, w) := w.testAll n.guards t (.ofTrigger d)
      (guards.outcome, w)

def fire (w : World ν) (n : TriggerNode) (t : Target) (d : TriggerData) : FutureId × World ν :=
  if n.trigger.accepts ≠ t.type then w.completed .empty
  else
    let (matched, w) := w.matchData n t d
    if matched.isFailure then w.completed matched
    else
      match w.claim n.id t.id n.config.policy with
      | (.error denial, w) => w.completed (.failed denial.message)
      | (.ok claim, w) =>
        let (guards, w) := w.testAll n.guards t (.ofTrigger d)
        if guards.isFailure then (w.release claim).completed guards.outcome
        else
          let w := (w.commit claim).enter n.id t.id .fired []
          let (own, w) := w.completed guards.outcome
          let (others, w) := ActionNode.executeEach n.actions t (.ofTrigger d) w
          w.all (own :: others)

def fireEach (w : World ν) (ns : List TriggerNode) (t : Target) (d : TriggerData) :
    List FutureId × World ν :=
  match ns with
  | [] => ([], w)
  | n :: rest =>
    let (f, w) := w.fire n t d
    let (fs, w) := w.fireEach rest t d
    (f :: fs, w)

def trigger (w : World ν) (f : Forest) (t : Target) (d : TriggerData) : FutureId × World ν :=
  let (fs, w) := w.fireEach (f.triggersFor d.identifier) t d
  w.all fs

end Cuescript.World
