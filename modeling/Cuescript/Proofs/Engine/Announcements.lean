import Cuescript.Catalogue.Actions
import Cuescript.Catalogue.Conditions
import Cuescript.Proofs.Engine.Channel
import Cuescript.Proofs.Engine.Dispatch

/-!
What is announced of a trigger. A call announces each node that it reaches when the future of the
node completes, in whichever order the tasks of the nodes are run later on. Main statement: in every
state of an engine, what a receiver that misses nothing reads after a call are the announcements of
the nodes that were reached and are complete, one each and with the outcome of its future, besides
those that earlier calls had left open; and the future of the call is the conjunction of theirs.
-/
namespace Cuescript

namespace World

variable {ν : Type}

/-! Running what is due is to let time pass and to run tasks. -/

theorem runDue_play (limit : Instant) (fuel : Nat) (w : World ν) :
    ∃ ms, runDue limit fuel w = w.play ms := by
  induction fuel generalizing w with
  | zero => exact ⟨[], rfl⟩
  | succ fuel ih =>
    rw [runDue]
    split
    · exact ⟨[], rfl⟩
    · rename_i i due _
      split
      · obtain ⟨ms, is⟩ := ih ((w.setClock due).runTask i)
        exact ⟨.clock due :: .run i :: ms, is⟩
      · exact ⟨[], rfl⟩

theorem advanceTo_play (w : World ν) (time : Instant) : ∃ ms, w.advanceTo time = w.play ms := by
  obtain ⟨ms, is⟩ := runDue_play time w.weight w
  refine ⟨ms ++ [.clock time], ?_⟩
  rw [advanceTo, is, play_append]
  rfl

theorem awaitFor_play (f : FutureId) (fuel : Nat) (w : World ν) :
    ∃ ms, awaitFor f fuel w = w.play ms := by
  induction fuel generalizing w with
  | zero => exact ⟨[], rfl⟩
  | succ fuel ih =>
    rw [awaitFor]
    split
    · exact ⟨[], rfl⟩
    · split
      · exact ⟨[], rfl⟩
      · rename_i _ due _
        obtain ⟨first, is⟩ := advanceTo_play w due
        obtain ⟨rest, then_is⟩ := ih (w.advanceTo due)
        refine ⟨first ++ rest, ?_⟩
        rw [then_is, is, play_append]

end World

namespace Engine

open World

def play (e : Engine) (ms : List Move) : Engine := { e with world := e.world.play ms }.publish

/-- What happens between calls: the runtime goes on, or a receiver reads what is there for it. -/
inductive Turn where
  | run (moves : List Move)
  | read (receiver : Nat)

def turn (e : Engine) : Turn → Engine
  | .run ms => e.play ms
  | .read receiver => { e with channel := (e.channel.receive receiver).2 }

/-- What is before the receiver `r` if it reads in a turn: how many events it missed, and others. -/
def Turn.hands (e : Engine) (r : Nat) : Turn → Nat × List TriggerEvent
  | .run _ => (0, [])
  | .read q => if q = r then e.channel.unread r else (0, [])

/-- What the receiver `r` misses and what it reads in all turns together and at their end. -/
def readings (e : Engine) (r : Nat) : List Turn → Nat × List TriggerEvent
  | [] => e.channel.unread r
  | first :: rest =>
    let now := first.hands e r
    let later := (e.turn first).readings r rest
    (now.1 + later.1, now.2 ++ later.2)

def Turn.behalf (e : Engine) (on : List FutureId) : Turn → List FutureId
  | .run ms => e.world.behalf on ms
  | .read _ => on

def behalf (e : Engine) (on : List FutureId) : List Turn → List FutureId
  | [] => on
  | first :: rest => (e.turn first).behalf (first.behalf e on) rest

/-- The states of an engine. What scripts, adapters and settings there are is left open. -/
inductive Reachable : Engine → Prop
  | start (registry : Registry) (adapters : Adapters) (settings : EngineSettings) (clock : Instant)
      (deferring : Bool) :
      Reachable (Engine.start registry adapters settings (World.start clock deferring))
  | configured {e e' : Engine} (reachable : Reachable e) (world : e'.world = e.world)
      (channel : e'.channel = e.channel) : Reachable e'
  | subscribed {e : Engine} (reachable : Reachable e) :
      Reachable { e with channel := e.channel.subscribe.2 }
  | unsubscribed {e : Engine} (reachable : Reachable e) (receiver : Nat) :
      Reachable { e with channel := e.channel.unsubscribe receiver }
  | received {e : Engine} (reachable : Reachable e) (receiver : Nat) :
      Reachable { e with channel := (e.channel.receive receiver).2 }
  | played {e : Engine} (reachable : Reachable e) (ms : List Move) : Reachable (e.play ms)
  | completed {e : Engine} (reachable : Reachable e) (o : Outcome) :
      Reachable (e.completed o).2
  | tested {e : Engine} (reachable : Reachable e) (id : String) (v : Native) :
      Reachable (e.test id v).2
  | triggered {e : Engine} (reachable : Reachable e) (v : Native) (d : TriggerData) :
      Reachable (e.triggerWith v d).2

section Calls

variable {e : Engine} (reachable : e.Reachable)

include reachable

theorem Reachable.load (c : ScriptConfig) : (e.load c).2.Reachable := by
  rw [Engine.load]
  split
  · exact reachable
  · exact reachable.configured rfl rfl

theorem Reachable.loadAll (cs : List ScriptConfig) : (e.loadAll cs).2.Reachable := by
  rw [Engine.loadAll]
  split
  · exact reachable
  · exact reachable.configured rfl rfl

theorem Reachable.remove (id : String) : (e.remove id).2.Reachable := by
  rw [Engine.remove]
  split
  · exact reachable
  · exact reachable.configured rfl rfl

theorem Reachable.execute (id : String) (v : Native) : (e.execute id v).2.Reachable := by
  rw [Engine.execute]
  split
  · exact reachable
  · rename_i script _
    split
    · exact reachable.completed .empty
    · rename_i t _
      exact reachable.played [.execute script.forest t .empty]

theorem Reachable.advanceTo (time : Instant) : (e.advanceTo time).Reachable := by
  obtain ⟨ms, is⟩ := advanceTo_play e.world time
  rw [Engine.advanceTo, is]
  exact reachable.played ms

theorem Reachable.await (f : FutureId) : (e.await f).Reachable := by
  obtain ⟨ms, is⟩ := awaitFor_play f e.world.weight e.world
  rw [Engine.await, World.await, is]
  exact reachable.played ms

end Calls

/-- Between two calls everything that was heard is published. -/
structure Sound (e : Engine) : Prop where
  engaged : ∃ ways, e.world.Engaged ways
  closed : e.world.futures.Closed []
  silent : e.world.futures.heard = []
  logs : ∃ log, e.channel.Logs log

variable {e : Engine} {v : Native} {t : Target} {d : TriggerData} {r next : Nat}
  {w : World Announcement} {ways : Wiring} {log told : List TriggerEvent}
  {ns : List (FutureId × Announcement)}

theorem Sound.tells (sound : e.Sound) :
    e.world.futures.Tells [] (Futures.notesOf e.world.futures.waiting) [] :=
  Futures.tells_waiting sound.closed sound.silent

theorem engaged_take (engaged : w.Engaged ways) :
    World.Engaged { w with futures := w.futures.takeHeard.2 } ways :=
  ⟨engaged.wired.take, engaged.tasks⟩

theorem sound_publish (engaged : w.Engaged ways) (closed : w.futures.Closed [])
    (logs : e.channel.Logs log) : { e with world := w }.publish.Sound :=
  ⟨⟨ways, engaged_take engaged⟩, closed.take, rfl, logs.goOn w.futures.heard⟩

def visits (e : Engine) (t : Target) (d : TriggerData) : List Visit :=
  (tour e.world t d (destinations t d (e.scripts.values.filter e.isDispatched))).1

def dispatch (e : Engine) (t : Target) (d : TriggerData) : FutureId × World Announcement :=
  (tour e.world t d (destinations t d (e.scripts.values.filter e.isDispatched))).2.all
    ((e.visits t d).map (·.future))

theorem triggerWith_eq (wraps : e.adapters.wrap v = some t) :
    e.triggerWith v d = ((e.dispatch t d).1, { e with world := (e.dispatch t d).2 }.publish) := by
  rw [triggerWith, wraps]
  dsimp only
  rw [visit_eq]
  rfl

theorem Sound.play (sound : e.Sound) (ms : List Move) : (e.play ms).Sound := by
  obtain ⟨ways, engaged⟩ := sound.engaged
  obtain ⟨log, logs⟩ := sound.logs
  obtain ⟨ways', after, _⟩ := engaged.play ms
  exact sound_publish after (tells_play engaged sound.tells ms).closed logs

theorem Sound.completed (sound : e.Sound) (o : Outcome) : (e.completed o).2.Sound := by
  obtain ⟨ways, engaged⟩ := sound.engaged
  exact ⟨⟨_, engaged.grow (grows_completed engaged.wired o)⟩, sound.closed.completed o,
    sound.silent, sound.logs⟩

theorem Sound.test (sound : e.Sound) (id : String) (v : Native) : (e.test id v).2.Sound := by
  rw [Engine.test]
  cases e.scripts.get? id with
  | none => exact sound
  | some script =>
    dsimp only
    cases e.adapters.wrap v with
    | none => exact sound
    | some t =>
      obtain ⟨ways, engaged⟩ := sound.engaged
      have quiet := quiet_testAll e.world script.forest.requirements t .empty
      refine ⟨⟨ways, engaged.quiet quiet⟩, ?_, ?_, sound.logs⟩
      · exact quiet.futures ▸ sound.closed
      · exact (congrArg Futures.heard quiet.futures).trans sound.silent

theorem Sound.triggerWith (sound : e.Sound) (v : Native) (d : TriggerData) :
    (e.triggerWith v d).2.Sound := by
  cases wraps : e.adapters.wrap v with
  | none =>
    rw [Engine.triggerWith, wraps]
    exact sound.completed .empty
  | some t =>
    obtain ⟨ways, engaged⟩ := sound.engaged
    obtain ⟨log, logs⟩ := sound.logs
    obtain ⟨ways', after, _⟩ := tour_all engaged t d _
    rw [triggerWith_eq wraps]
    exact sound_publish after (tour_all_tells sound.tells engaged t d _).closed logs

theorem Reachable.sound (reachable : e.Reachable) : e.Sound := by
  induction reachable with
  | start registry adapters settings clock deferring =>
    exact ⟨⟨_, Engaged.start clock deferring⟩, Futures.closed_empty, rfl,
      ⟨_, Channel.logs_ofCapacity _⟩⟩
  | configured _ world channel ih =>
    obtain ⟨engaged, closed, silent, logs⟩ := ih
    rw [← world] at engaged closed silent
    rw [← channel] at logs
    exact ⟨engaged, closed, silent, logs⟩
  | subscribed _ ih => exact { ih with logs := ih.logs.imp fun _ logs => logs.subscribe }
  | unsubscribed _ receiver ih =>
    exact { ih with logs := ih.logs.imp fun _ logs => logs.unsubscribe receiver }
  | received _ receiver ih =>
    exact { ih with logs := ih.logs.imp fun _ logs => logs.receive receiver }
  | played _ ms ih => exact ih.play ms
  | completed _ o ih => exact ih.completed o
  | tested _ id v ih => exact ih.test id v
  | triggered _ v d ih => exact ih.triggerWith v d

theorem turn_awaits (engaged : e.world.Engaged ways) (first : Turn) :
    ∃ ways', (e.turn first).world.Engaged ways' ∧ ∀ f on, e.world.Awaits ways f on →
      (e.turn first).world.Awaits ways' f (first.behalf e on) := by
  cases first with
  | run ms =>
    obtain ⟨ways', after, along⟩ := engaged.play ms
    exact ⟨ways', engaged_take after, fun f on awaits => ⟨(along f on awaits).known,
      (along f on awaits).reads⟩⟩
  | read q => exact ⟨ways, engaged, fun f on awaits => awaits⟩

/-- Since the log was `log` the events `told` have been published, of the notes `ns`. -/
structure Since (log : List TriggerEvent) (ns : List (FutureId × Announcement)) (e : Engine)
    (told : List TriggerEvent) : Prop where
  tells : e.world.futures.Tells told ns []
  silent : e.world.futures.heard = []
  logs : e.channel.Logs (log ++ told)

theorem since_publish (tells : w.futures.Tells told ns []) (logs : e.channel.Logs (log ++ told))
    (reads : e.channel.Reads r next) :
    let e' := { e with world := w }.publish
    ∃ more, Since log ns e' (told ++ more) ∧ e'.channel.Reads r next ∧
      ((e'.channel.unread r).1 = 0 → (e.channel.unread r).1 = 0 ∧
        (e'.channel.unread r).2 = (e.channel.unread r).2 ++ more) := by
  obtain ⟨logs', reads', capacity⟩ := logs.sendAll reads w.futures.heard
  refine ⟨w.futures.heard, ⟨tells.take, rfl, ?_⟩, reads',
    Channel.unread_append logs reads logs' reads' capacity⟩
  rw [← List.append_assoc]
  exact logs'

theorem Since.step (since : Since log ns e told) (engaged : e.world.Engaged ways)
    (reads : e.channel.Reads r next) (first : Turn) :
    ∃ more next', Since log ns (e.turn first) (told ++ more) ∧
      (e.turn first).channel.Reads r next' ∧
      ((first.hands e r).1 = 0 → ((e.turn first).channel.unread r).1 = 0 →
        (e.channel.unread r).1 = 0 ∧ (first.hands e r).2 ++ ((e.turn first).channel.unread r).2 =
          (e.channel.unread r).2 ++ more) := by
  cases first with
  | run ms =>
    obtain ⟨more, since, reads, unread⟩ :=
      since_publish (tells_play engaged since.tells ms) since.logs reads
    exact ⟨more, next, since, reads, fun _ => unread⟩
  | read q =>
    -- Nothing is published; what was before the receiver that reads is in its hands now.
    have same : Since log ns (e.turn (.read q)) (told ++ []) := by
      rw [List.append_nil]
      exact { since with logs := since.logs.receive q }
    rw [Turn.hands]
    split
    · rename_i own
      subst own
      obtain ⟨reads, nothing⟩ := reads.receive since.logs
      refine ⟨[], _, same, reads, fun none _ => ⟨none, ?_⟩⟩
      rw [Engine.turn, nothing]
    · rename_i other
      obtain ⟨reads, unread⟩ := reads.receive_ne other
      refine ⟨[], next, same, reads, fun _ none => ?_⟩
      rw [Engine.turn, unread] at none ⊢
      exact ⟨none, (List.append_nil _).symm⟩

/-- Over turns the receiver reads what it has before it, and then what is published. -/
theorem Since.run (since : Since log ns e told) (engaged : e.world.Engaged ways)
    (reads : e.channel.Reads r next) (later : List Turn) (all : (e.readings r later).1 = 0) :
    (e.channel.unread r).1 = 0 ∧ ∃ more, Since log ns (later.foldl turn e) (told ++ more) ∧
      (e.readings r later).2 = (e.channel.unread r).2 ++ more := by
  induction later generalizing e ways told next with
  | nil =>
    refine ⟨all, [], ?_, (List.append_nil _).symm⟩
    rw [List.append_nil]
    exact since
  | cons first rest ih =>
    obtain ⟨now, then_all⟩ := Nat.add_eq_zero_iff.mp all
    obtain ⟨more, next', since, reads, unread⟩ := since.step engaged reads first
    obtain ⟨_, engaged, _⟩ := turn_awaits engaged first
    obtain ⟨before, last, since, is⟩ := ih since engaged reads then_all
    obtain ⟨missed, own⟩ := unread now before
    rw [List.append_assoc] at since
    refine ⟨missed, more ++ last, since, ?_⟩
    rw [Engine.readings, is, ← List.append_assoc, own, List.append_assoc]

theorem turns_await (engaged : e.world.Engaged ways) (later : List Turn) :
    ∃ ways', (later.foldl turn e).world.Engaged ways' ∧ ∀ f on, e.world.Awaits ways f on →
      (later.foldl turn e).world.Awaits ways' f (e.behalf on later) := by
  induction later generalizing e ways with
  | nil => exact ⟨ways, engaged, fun f on awaits => awaits⟩
  | cons first rest ih =>
    obtain ⟨ways', engaged, along⟩ := turn_awaits engaged first
    obtain ⟨last, engaged, further⟩ := ih engaged
    exact ⟨last, engaged, fun f on awaits => further f _ (along f on awaits)⟩

/-- What is known of futures is known after turns, with other prospects in place of tasks. -/
theorem turns_reads (engaged : e.world.Engaged ways) (later : List Turn) :
    ∃ ways' σ, (later.foldl turn e).world.Engaged ways' ∧ Prospect.Substitution σ ∧
      ∀ f d, ways.Reads f d → ways'.Reads f (σ d) := by
  induction later generalizing e ways with
  | nil => exact ⟨ways, id, engaged, .id, fun _ _ reads => reads⟩
  | cons first rest ih =>
    cases first with
    | run ms =>
      obtain ⟨_, _, engaged, substitution, here⟩ := engaged.play_reads ms
      obtain ⟨_, _, engaged, then_substitution, there⟩ :=
        ih (e := e.turn (.run ms)) (engaged_take engaged)
      exact ⟨_, _, engaged, substitution.comp then_substitution,
        fun f d reads => there f _ (here f d reads)⟩
    | read q => exact ih (e := e.turn (.read q)) engaged

theorem turns_conjoin {c : FutureId} {fs : List FutureId} (engaged : e.world.Engaged ways)
    (conjoined : Conjoined ways c fs) (later : List Turn) :
    (later.foldl turn e).world.futures.Conjoins c fs := by
  obtain ⟨ways', σ, engaged, substitution, kept⟩ := turns_reads engaged later
  exact engaged.conjoins (conjoined.substitute substitution kept)

def aftermath (e : Engine) (v : Native) (d : TriggerData) (later : List Turn) : Engine :=
  later.foldl turn (e.triggerWith v d).2

/-- What becomes of a call for the target `t`, as far as the receiver `r` can tell. -/
structure Announces (e : Engine) (v : Native) (t : Target) (d : TriggerData) (r : Nat)
    (later : List Turn) : Prop where
  /-- Visited are the nodes of dispatched scripts that answer to the data and accept the target,
  once each. -/
  nodes : (e.visits t d).map (fun x => (x.script, x.node)) =
    (e.scripts.values.filter fun s => s.settings.autoTrigger || 0 < e.channel.receiverCount).flatMap
      fun s => ((s.forest.triggers.filter fun n => n.answersTo d.identifier).filter
        fun n => n.trigger.accepts = t.type).map fun n => (s, n)
  /-- A node's future is that of firing it or of its dry run, and the call ends with joining them. -/
  visited : ∃ w, Visited t d e.world (e.visits t d) w ∧
    e.triggerWith v d = ((w.all ((e.visits t d).map Visit.future)).1,
      { e with world := (w.all ((e.visits t d).map Visit.future)).2 }.publish)
  /-- The receiver reads one announcement of each node that is complete, with the outcome of its
  future, besides those that were open before the call. -/
  events : ∃ events, ((e.triggerWith v d).2.readings r later).2 =
      (e.channel.unread r).2 ++ events ∧
    events.Perm ((e.aftermath v d later).world.futures.tidings
      (Futures.notesOf e.world.futures.waiting ++ (e.visits t d).map (Visit.note t d)))
  /-- A node is incomplete as long as a task on its behalf waits. -/
  finished : ∀ x ∈ e.visits t d,
    (e.aftermath v d later).world.futures.isComplete x.future = false ↔
      ∃ task ∈ (e.aftermath v d later).world.tasks,
        task.done ∈ (e.triggerWith v d).2.behalf x.tasks later
  /-- The future of the call is the conjunction of those of the nodes. -/
  returned : (e.aftermath v d later).world.futures.Conjoins (e.triggerWith v d).1
    ((e.visits t d).map (·.future))

/-- A script with an action that is put off, one that is only tested, and a receiver. -/
def opened : Engine :=
  let adapters := Adapters.empty.registerLabelled .player ""
  let e := start Catalogue.registry adapters .initial (World.start ⟨0⟩ true)
  let e := (e.load (.ofLines "greeter" ["@join", "!say hello", "!say(delay=2s) again"])).2
  let e := (e.load ⟨"watcher", none, "flow", some ⟨true, false⟩, ["@join", "!say never"]⟩).2
  { e with channel := e.channel.subscribe.2 }

example : ((opened.triggerWith (.player "steve" 20) (.ofIdentifier "join")).2.readings 0
      [.read 0, .run [.clock ⟨2000⟩, .run 0]]).2.map (fun a => (a.1.script, a.2.messages)) =
    [("watcher", []), ("greeter", ["steve: hello", "steve: again"])] := by decide +kernel

end Engine

end Cuescript
