import Cuescript.Execution.Store
import Cuescript.Futures.Basic
import Cuescript.Outcome.Combined

/-!
Everything that running scripts can change, as one value: the clock, the store, the futures, the
actions put off until later, and the journal of what was done. `ν` labels the notes of listeners.
A denial that cannot be told crashes the program. The world keeps a mark of that and goes on with
the message of the crash; what is done in a crashed world is not done by the program.
-/
namespace Cuescript

structure Task where
  due : Instant
  node : ActionNode
  target : Target
  context : Context
  claim : Claim
  done : FutureId

inductive Deed where
  | tested (outcome : Outcome)
  | matched (outcome : Outcome)
  | admitted
  /-- An action was put off as a task, which has a future of its own. -/
  | deferred (task : FutureId)
  | resumed (task : FutureId)
  | ran (outcome : Outcome)
  /-- A trigger fired: it matched, was admitted, and its guards held. -/
  | fired
  deriving DecidableEq

structure Entry where
  node : NodeId
  target : String
  time : Instant
  deed : Deed
  notes : List String
  deriving DecidableEq

structure World (ν : Type) where
  clock : Instant
  deferring : Bool
  store : Store
  futures : Futures ν
  tasks : List Task
  journal : List Entry
  crashed : Bool

namespace World

variable {ν : Type}

def start (clock : Instant) (deferring : Bool) : World ν :=
  ⟨clock, deferring, Store.empty, Futures.empty, [], [], false⟩

def setClock (w : World ν) (t : Instant) : World ν := { w with clock := t }

def enter (w : World ν) (node : NodeId) (target : String) (deed : Deed) (notes : List String) :
    World ν :=
  { w with journal := w.journal ++ [⟨node, target, w.clock, deed, notes⟩] }

/-- Claims a pair for a run. The admission is a line of the journal; a denial is told at once. -/
def claim (w : World ν) (node : NodeId) (target : String) (policy : Policy) :
    Except Denial Claim × World ν :=
  match w.store.claim (node, target) policy w.clock with
  | (.error d, store) =>
    (.error d, { w with store := store, crashed := w.crashed || d.message?.isNone })
  | (.ok c, store) => (.ok c, { w with store := store }.enter node target .admitted [])

def commit (w : World ν) (c : Claim) : World ν := { w with store := w.store.commit c w.clock }

def release (w : World ν) (c : Claim) : World ν := { w with store := w.store.release c }

def completed (w : World ν) (o : Outcome) : FutureId × World ν :=
  let (f, futures) := w.futures.completed o
  (f, { w with futures := futures })

def all (w : World ν) (fs : List FutureId) : FutureId × World ν :=
  let (f, futures) := w.futures.all fs
  (f, { w with futures := futures })

def onComplete (w : World ν) (f : FutureId) (l : Listener ν) : World ν :=
  { w with futures := w.futures.onComplete f l }

def defer (w : World ν) (node : ActionNode) (target : Target) (context : Context) (claim : Claim) :
    FutureId × World ν :=
  let (f, futures) := w.futures.pending
  let task := ⟨w.clock.after node.step.config.delay, node, target, context, claim, f⟩
  let w := { w with futures := futures, tasks := w.tasks ++ [task] }
  (f, w.enter node.id target.id (.deferred f) [])

def notesFrom (w : World ν) (line : Nat) : List String := (w.journal.drop line).flatMap (·.notes)

end World

end Cuescript
