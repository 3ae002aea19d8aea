/-!
Events sent to receivers that read them when they like. The channel keeps the events sent last, as
many as its capacity; a receiver that is slower misses the older ones and is told how many.
-/
namespace Cuescript

/-- `sent` counts the events sent so far, `kept` are the last of them. A receiver is the number of
events sent before the one it reads next; a closed one is `none`. -/
structure Channel (α : Type) where
  capacity : Nat
  sent : Nat
  kept : List α
  receivers : List (Option Nat)

namespace Channel

variable {α : Type}

/-- A channel with room for at least so many events; its capacity is a power of two. -/
def ofCapacity (n : Nat) : Channel α := ⟨(max n 1).nextPowerOfTwo, 0, [], []⟩

def receiverCount (c : Channel α) : Nat := (c.receivers.filter Option.isSome).length

def subscribe (c : Channel α) : Nat × Channel α :=
  (c.receivers.length, { c with receivers := c.receivers ++ [some c.sent] })

def unsubscribe (c : Channel α) (receiver : Nat) : Channel α :=
  { c with receivers := c.receivers.set receiver none }

def send (c : Channel α) (event : α) : Channel α :=
  if c.receiverCount = 0 then c
  else
    let kept := c.kept ++ [event]
    { c with sent := c.sent + 1, kept := kept.drop (kept.length - c.capacity) }

def unread (c : Channel α) (receiver : Nat) : Nat × List α :=
  match (c.receivers[receiver]?).join with
  | none => (0, [])
  | some next =>
    let oldest := c.sent - c.kept.length
    (oldest - next, c.kept.drop (next - oldest))

def receive (c : Channel α) (receiver : Nat) : (Nat × List α) × Channel α :=
  (c.unread receiver,
    { c with receivers := c.receivers.modify receiver fun r => r.map fun _ => c.sent })

end Channel

end Cuescript
