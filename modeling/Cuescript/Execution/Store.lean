import Cuescript.Node.Basic
import Cuescript.Table
import Cuescript.Time.Notation

/-!
What is remembered of each node for each target: when it last ran, whether it is running, and
whether a requirement that is checked once has passed. A node claims its entry before it runs;
while an active claim stands, no other is granted for the same pair.
-/
namespace Cuescript

structure Policy where
  cooldown : Duration
  executeOnce : Bool
  deriving DecidableEq

namespace Policy

def isActive (p : Policy) : Bool := p.executeOnce || !p.cooldown.isZero

end Policy

def ActionConfig.policy (c : ActionConfig) : Policy := ⟨c.cooldown, c.executeOnce⟩

def TriggerConfig.policy (c : TriggerConfig) : Policy := ⟨c.cooldown, c.executeOnce⟩

inductive Denial where
  | alreadyExecuted
  | cooldown (remaining : Duration)
  | inFlight
  deriving DecidableEq

/-- What is said of a denial. Saying it crashes where the time that remains has no text. -/
def Denial.message? : Denial → Option String
  | .alreadyExecuted => some "already executed once"
  | .cooldown remaining =>
    remaining.text?.map fun text => "still on cooldown, " ++ text ++ " remaining"
  | .inFlight => some "already executing for this target"

def Denial.message (d : Denial) : String := d.message?.getD Duration.overflow

structure ExecutionRecord where
  last : Option Instant
  inFlight : Bool
  deriving DecidableEq, Inhabited

abbrev Pair := NodeId × String

structure Store where
  records : Table Pair ExecutionRecord
  passed : Table Pair Instant

structure Claim where
  pair : Pair
  tracked : Bool
  deriving DecidableEq

namespace Store

def empty : Store := ⟨Table.empty, Table.empty⟩

def record (s : Store) (p : Pair) : ExecutionRecord := (s.records.get? p).getD ⟨none, false⟩

def denial? (record : ExecutionRecord) (policy : Policy) (now : Instant) : Option Denial :=
  if record.inFlight then some .inFlight
  else
    match record.last with
    | none => none
    | some last =>
      if policy.executeOnce then some .alreadyExecuted
      else if now.since last < policy.cooldown then
        some (.cooldown (policy.cooldown.minus (now.since last)))
      else none

/-- Claims a pair. A claim under a policy that restricts nothing leaves no trace. -/
def claim (s : Store) (p : Pair) (policy : Policy) (now : Instant) :
    Except Denial Claim × Store :=
  if policy.isActive then
    let record := s.record p
    match denial? record policy now with
    | some d => (.error d, { s with records := s.records.set p record })
    | none =>
      (.ok ⟨p, true⟩, { s with records := s.records.set p { record with inFlight := true } })
  else (.ok ⟨p, false⟩, s)

def commit (s : Store) (c : Claim) (now : Instant) : Store :=
  if c.tracked then { s with records := s.records.set c.pair ⟨some now, false⟩ } else s

def release (s : Store) (c : Claim) : Store :=
  if c.tracked then
    match s.records.get? c.pair with
    | some record => { s with records := s.records.set c.pair { record with inFlight := false } }
    | none => s
  else s

def lastExecution (s : Store) (p : Pair) : Option Instant := (s.record p).last

def hasPassed (s : Store) (p : Pair) : Bool := s.passed.contains p

def markPassed (s : Store) (p : Pair) (now : Instant) : Store :=
  { s with passed := s.passed.set p now }

def resetTarget (s : Store) (target : String) : Store :=
  { records := s.records.keep fun e => e.1.2 ≠ target || e.2.inFlight
    passed := s.passed.keep fun e => e.1.2 ≠ target }

def clear (s : Store) : Store :=
  { records := s.records.keep fun e => e.2.inFlight
    passed := Table.empty }

def size (s : Store) : Nat := s.records.count fun r => r.last.isSome

end Store

end Cuescript
