import Cuescript.Engine.Channel
import Cuescript.Execution.Schedule
import Cuescript.Execution.Triggers
import Cuescript.Forest.Compile
import Cuescript.Script.Loader

/-!
The engine: compiled scripts by id, run for native values through one world. A trigger goes to the
scripts that are dispatched, and each trigger node that it reaches is announced when its future
completes. Scripts are visited in the order of the table.
-/
namespace Cuescript

structure Script where
  id : String
  title : Option String
  settings : ScriptSettings
  forest : Forest
  loadedAt : Instant

def Script.displayName (s : Script) : String := s.title.getD s.id

structure Announcement where
  script : String
  trigger : String
  target : String
  data : TriggerData
  executed : Bool

abbrev TriggerEvent := Announcement × Outcome

inductive EngineError where
  | notFound (id : String)
  | compile (id : String) (error : CompileError)
  | unsupportedParser (id parser : String)
  | config (error : ConfigError)

def EngineError.message : EngineError → String
  | .notFound id => "Script not found: " ++ id
  | .compile id error => "Failed to compile script '" ++ id ++ "': " ++ error.message
  | .unsupportedParser id parser => "Unsupported parser '" ++ parser ++ "' in script '" ++ id ++ "'"
  | .config error => error.message

def EngineError.cause : EngineError → String
  | .notFound _ => "NotFound"
  | .compile .. => "Compile"
  | .unsupportedParser .. => "UnsupportedParser"
  | .config error => error.cause

/-- `nextNode` is the first id that no node has. -/
structure Engine where
  registry : Registry
  adapters : Adapters
  settings : EngineSettings
  world : World Announcement
  scripts : Table String Script
  channel : Channel TriggerEvent
  nextNode : Nat

namespace Engine

def start (registry : Registry) (adapters : Adapters) (settings : EngineSettings)
    (world : World Announcement) : Engine :=
  { registry, adapters, settings, world
    scripts := Table.empty
    channel := Channel.ofCapacity settings.eventCapacity
    nextNode := 0 }

def publish (e : Engine) : Engine :=
  let (heard, futures) := e.world.futures.takeHeard
  { e with
    world := { e.world with futures := futures }
    channel := heard.foldl Channel.send e.channel }

def compile (e : Engine) (c : ScriptConfig) (first : Nat) : Except EngineError Script :=
  if !Text.eqIgnoringAsciiCase c.parser ScriptConfig.flowParser then
    .error (.unsupportedParser c.id c.parser)
  else
    match e.registry.compileLines LineForm.standards c.lines first with
    | .error error => .error (.compile c.id error)
    | .ok forest =>
      .ok ⟨c.id, c.title, c.effective e.settings.defaults, forest, e.world.clock⟩

/-- Compiles scripts in order; each line of a script takes up one node id. -/
def compileAll (e : Engine) (next : Nat) : List ScriptConfig → Except EngineError (List Script)
  | [] => .ok []
  | c :: rest =>
    match e.compile c next with
    | .error error => .error error
    | .ok script =>
      match e.compileAll (next + c.lines.length) rest with
      | .error error => .error error
      | .ok scripts => .ok (script :: scripts)

/-- Adds compiled scripts; a script with an id that is taken replaces the other. -/
def addScripts (e : Engine) (configs : List ScriptConfig) (scripts : List Script) : Engine :=
  { e with
    scripts := scripts.foldl (fun t s => t.set s.id s) e.scripts
    nextNode := configs.foldl (fun n c => n + c.lines.length) e.nextNode }

/-- Compiles and adds scripts; nothing is added if one of them fails. Gives their ids. -/
def loadAll (e : Engine) (configs : List ScriptConfig) :
    Except EngineError (List String) × Engine :=
  match e.compileAll e.nextNode configs with
  | .error error => (.error error, e)
  | .ok scripts => (.ok (scripts.map (·.id)), e.addScripts configs scripts)

def load (e : Engine) (c : ScriptConfig) : Except EngineError String × Engine :=
  match e.compile c e.nextNode with
  | .error error => (.error error, e)
  | .ok script => (.ok c.id, e.addScripts [c] [script])

def remove (e : Engine) (id : String) : Except EngineError Script × Engine :=
  match e.scripts.get? id with
  | none => (.error (.notFound id), e)
  | some script => (.ok script, { e with scripts := e.scripts.erase id })

def ids (e : Engine) : List String := e.scripts.keys.mergeSort fun a b => a ≤ b

def completed (e : Engine) (o : Outcome) : FutureId × Engine :=
  let (f, world) := e.world.completed o
  (f, { e with world := world })

def test (e : Engine) (id : String) (v : Native) : Except EngineError Combined × Engine :=
  match e.scripts.get? id with
  | none => (.error (.notFound id), e)
  | some script =>
    match e.adapters.wrap v with
    | none => (.ok .nothing, e)
    | some target =>
      let (outcomes, world) := e.world.testForest script.forest target .empty
      (.ok outcomes, { e with world := world })

def execute (e : Engine) (id : String) (v : Native) : Except EngineError FutureId × Engine :=
  match e.scripts.get? id with
  | none => (.error (.notFound id), e)
  | some script =>
    match e.adapters.wrap v with
    | none =>
      let (f, e) := e.completed .empty
      (.ok f, e)
    | some target =>
      let (f, world) := e.world.execute script.forest target .empty
      (.ok f, { e with world := world }.publish)

/-- A script takes part if it is set to, or while somebody listens. -/
def isDispatched (e : Engine) (s : Script) : Bool :=
  s.settings.autoTrigger || 0 < e.channel.receiverCount

/-- Fires a trigger node of a script, or asks it only if actions are off; it is announced when its
future completes. -/
def reach (w : World Announcement) (s : Script) (n : TriggerNode) (t : Target) (d : TriggerData) :
    FutureId × World Announcement :=
  let (f, w) :=
    if s.settings.executeActions then w.fire n t d
    else
      let (o, w) := w.testTrigger n t d
      w.completed o
  (f, w.onComplete f (.note ⟨s.id, n.identifier, t.id, d, s.settings.executeActions⟩))

def reachEach (w : World Announcement) (s : Script) (t : Target) (d : TriggerData) :
    List TriggerNode → List FutureId × World Announcement
  | [] => ([], w)
  | n :: rest =>
    let (f, w) := reach w s n t d
    let (fs, w) := reachEach w s t d rest
    (f :: fs, w)

def reached (s : Script) (t : Target) (d : TriggerData) : List TriggerNode :=
  (s.forest.triggersFor d.identifier).filter fun n => n.trigger.accepts = t.type

def visit (w : World Announcement) (t : Target) (d : TriggerData) :
    List Script → List FutureId × World Announcement
  | [] => ([], w)
  | s :: rest =>
    let (fs, w) := reachEach w s t d (reached s t d)
    let (gs, w) := visit w t d rest
    (fs ++ gs, w)

def triggerWith (e : Engine) (v : Native) (d : TriggerData) : FutureId × Engine :=
  match e.adapters.wrap v with
  | none => e.completed .empty
  | some target =>
    let (fs, world) := visit e.world target d (e.scripts.values.filter e.isDispatched)
    let (f, world) := world.all fs
    (f, { e with world := world }.publish)

def trigger (e : Engine) (identifier : String) (v : Native) : FutureId × Engine :=
  e.triggerWith v (.ofIdentifier identifier)

def advanceTo (e : Engine) (time : Instant) : Engine :=
  { e with world := e.world.advanceTo time }.publish

def await (e : Engine) (f : FutureId) : Engine := { e with world := e.world.await f }.publish

end Engine

end Cuescript
