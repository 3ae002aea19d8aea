import Cuescript.Engine.Channel

/-!
What receivers read. All events that were sent make up a log, of which the channel keeps the end.
Main statement: a receiver that has missed nothing has before it all events that were sent since it
read last, in order.
-/
namespace Cuescript.Channel

variable {α : Type} {c : Channel α} {log : List α}

/-- The channel stands at the end of the log of all events that were sent through it. -/
structure Logs (c : Channel α) (log : List α) : Prop where
  sent : c.sent = log.length
  kept : c.kept = log.drop (log.length - c.capacity)
  receivers : ∀ (r next : Nat), c.receivers[r]? = some (some next) → next ≤ log.length

theorem logs_ofCapacity (n : Nat) : (ofCapacity n : Channel α).Logs [] := by
  refine ⟨rfl, List.drop_nil.symm, fun r next reads => ?_⟩
  cases reads

theorem Logs.subscribe (logs : c.Logs log) : c.subscribe.2.Logs log := by
  refine ⟨logs.sent, logs.kept, fun r next reads => ?_⟩
  have member := List.mem_of_getElem? reads
  rcases List.mem_append.mp member with before | new
  · obtain ⟨r', is⟩ := List.getElem?_of_mem before
    exact logs.receivers r' next is
  · obtain rfl := Option.some.inj (List.mem_singleton.mp new)
    exact Nat.le_of_eq logs.sent

theorem Logs.unsubscribe (logs : c.Logs log) (receiver : Nat) :
    (c.unsubscribe receiver).Logs log := by
  refine ⟨logs.sent, logs.kept, fun r next reads => ?_⟩
  rcases List.mem_or_eq_of_mem_set (List.mem_of_getElem? reads) with before | closed
  · obtain ⟨r', is⟩ := List.getElem?_of_mem before
    exact logs.receivers r' next is
  · cases closed

theorem Logs.receive (logs : c.Logs log) (receiver : Nat) : (c.receive receiver).2.Logs log := by
  refine ⟨logs.sent, logs.kept, fun r next reads => ?_⟩
  have reads : (c.receivers.modify receiver fun r => r.map fun _ => c.sent)[r]? =
    some (some next) := reads
  by_cases own : receiver = r
  · subst own
    rw [List.getElem?_modify_eq, Option.map_eq_map, Option.map_eq_some_iff] at reads
    obtain ⟨position, _, now⟩ := reads
    obtain ⟨_, _, rfl⟩ := Option.map_eq_some_iff.mp now
    exact Nat.le_of_eq logs.sent
  · rw [List.getElem?_modify_ne _ _ own] at reads
    exact logs.receivers r next reads

theorem Logs.send (logs : c.Logs log) (event : α) :
    (c.send event).Logs (if c.receiverCount = 0 then log else log ++ [event]) := by
  rw [Channel.send]
  split
  · exact logs
  · refine ⟨?_, ?_, fun r next reads => ?_⟩
    · rw [List.length_append, logs.sent]
      rfl
    · have inside : log.length - c.capacity ≤ log.length := Nat.sub_le ..
      simp only [logs.kept, ← List.drop_append_of_le_length inside, List.drop_drop,
        List.length_drop, List.length_append, List.length_singleton]
      congr 1
      omega
    · rw [List.length_append]
      exact Nat.le_succ_of_le (logs.receivers r next reads)

/-- A receiver is open, and has read so many of the events. -/
def Reads (c : Channel α) (r next : Nat) : Prop := c.receivers[r]? = some (some next)

theorem Reads.receiverCount_ne_zero {r next : Nat} (reads : c.Reads r next) :
    c.receiverCount ≠ 0 := by
  have member : some next ∈ c.receivers.filter Option.isSome :=
    List.mem_filter.mpr ⟨List.mem_of_getElem? reads, rfl⟩
  exact Nat.ne_of_gt (List.length_pos_of_mem member)

theorem Reads.send {r next : Nat} (reads : c.Reads r next) (event : α) :
    (c.send event).Reads r next := by
  rw [Channel.send]
  split <;> exact reads

theorem capacity_send (c : Channel α) (event : α) : (c.send event).capacity = c.capacity := by
  rw [Channel.send]
  split <;> rfl

theorem Logs.sendAll {r next : Nat} (logs : c.Logs log) (reads : c.Reads r next)
    (events : List α) :
    (events.foldl Channel.send c).Logs (log ++ events) ∧
      (events.foldl Channel.send c).Reads r next ∧
      (events.foldl Channel.send c).capacity = c.capacity := by
  induction events generalizing c log with
  | nil =>
    rw [List.append_nil]
    exact ⟨logs, reads, rfl⟩
  | cons event rest ih =>
    have sent := logs.send event
    rw [if_neg reads.receiverCount_ne_zero] at sent
    have next := ih sent (reads.send event)
    rw [capacity_send, List.append_assoc] at next
    exact next

theorem Logs.goOn (logs : c.Logs log) (events : List α) :
    ∃ log', (events.foldl Channel.send c).Logs log' := by
  induction events generalizing c log with
  | nil => exact ⟨log, logs⟩
  | cons event rest ih => exact ih (logs.send event)

theorem missed_eq {r next : Nat} (logs : c.Logs log) (reads : c.Reads r next) :
    (c.unread r).1 = log.length - c.capacity - next := by
  have open? : (c.receivers[r]?).join = some next := by rw [reads, Option.join_some]
  simp only [unread, open?, logs.sent, logs.kept, List.length_drop]
  omega

theorem unread_eq {r next : Nat} (logs : c.Logs log) (reads : c.Reads r next)
    (all : (c.unread r).1 = 0) : (c.unread r).2 = log.drop next := by
  rw [missed_eq logs reads] at all
  have open? : (c.receivers[r]?).join = some next := by rw [reads, Option.join_some]
  simp only [unread, open?, logs.sent, logs.kept, List.length_drop, List.drop_drop]
  congr 1
  omega

theorem Reads.receive {r next : Nat} (logs : c.Logs log) (reads : c.Reads r next) :
    (c.receive r).2.Reads r log.length ∧ (c.receive r).2.unread r = (0, []) := by
  have modified : (c.receive r).2.receivers[r]? = some (some log.length) := by
    rw [Channel.receive, List.getElem?_modify_eq, reads, logs.sent]
    rfl
  have missed := missed_eq (logs.receive r) modified
  rw [Nat.sub_eq_zero_of_le (Nat.sub_le ..)] at missed
  have nothing := unread_eq (logs.receive r) modified missed
  rw [List.drop_length] at nothing
  exact ⟨modified, Prod.ext missed nothing⟩

theorem Reads.receive_ne {q r next : Nat} (reads : c.Reads r next) (other : q ≠ r) :
    (c.receive q).2.Reads r next ∧ (c.receive q).2.unread r = c.unread r := by
  have same : (c.receive q).2.receivers[r]? = c.receivers[r]? := List.getElem?_modify_ne _ _ other
  refine ⟨same.trans reads, ?_⟩
  rw [unread, same]
  rfl

theorem unread_append {c' : Channel α} {r next : Nat} {events : List α} (logs : c.Logs log)
    (reads : c.Reads r next) (logs' : c'.Logs (log ++ events)) (reads' : c'.Reads r next)
    (capacity : c'.capacity = c.capacity) (all : (c'.unread r).1 = 0) :
    (c.unread r).1 = 0 ∧ (c'.unread r).2 = (c.unread r).2 ++ events := by
  have before : (c.unread r).1 = 0 := by
    rw [missed_eq logs' reads', List.length_append, capacity] at all
    rw [missed_eq logs reads]
    omega
  refine ⟨before, ?_⟩
  rw [unread_eq logs' reads' all, unread_eq logs reads before,
    List.drop_append_of_le_length (logs.receivers r next reads)]

end Cuescript.Channel
