import Cuescript.Execution.Actions

/-!
One way of running the actions that were put off: in the order in which they are due, with the
clock at that time. An action that runs may put off its children, which are fewer; so the total
weight of the tasks bounds the number of runs.
-/
namespace Cuescript.World

variable {ν : Type}

def weight (w : World ν) : Nat := ActionNode.weightAll (w.tasks.map (·.node))

/-- The place of the task that is due first, of several the one put off first. -/
def nextIndex? : List Task → Option (Nat × Instant)
  | [] => none
  | task :: rest =>
    match nextIndex? rest with
    | some (i, due) => if due < task.due then some (i + 1, due) else some (0, task.due)
    | none => some (0, task.due)

def runDue (limit : Instant) : Nat → World ν → World ν
  | 0, w => w
  | fuel + 1, w =>
    match nextIndex? w.tasks with
    | none => w
    | some (i, due) =>
      if due ≤ limit then runDue limit fuel ((w.setClock due).runTask i) else w

def advanceTo (w : World ν) (time : Instant) : World ν :=
  (runDue time w.weight w).setClock time

/-- Runs tasks, all that are due at one time together, until the future is complete. -/
def awaitFor (f : FutureId) : Nat → World ν → World ν
  | 0, w => w
  | fuel + 1, w =>
    if w.futures.isComplete f then w
    else
      match nextIndex? w.tasks with
      | none => w
      | some (_, due) => awaitFor f fuel (w.advanceTo due)

def await (w : World ν) (f : FutureId) : World ν := awaitFor f w.weight w

end Cuescript.World
