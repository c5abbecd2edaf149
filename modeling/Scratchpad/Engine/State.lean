import Scratchpad.Engine.Connection
import Scratchpad.Engine.Event
import Scratchpad.Instrument.Pipeline
import Scratchpad.Throttle.Basic

/-!
The state of an engine. Whatever waits for something is a task, and the place at which a task waits is
part of the state; between two such places a task is not interrupted.
-/
namespace Scratchpad.Engine

open Wire (HostMessage WorkerMessage)

/-- A task is known by its position. -/
abbrev TaskId := Nat

abbrev ConnectionId := Nat

/-! ### Languages -/

/-- The worker that serves a language. -/
structure Serving where
  connection : ConnectionId
  generation : Nat
  busy : Bool := false
  current : Option Uuid := none
deriving DecidableEq, Repr

inductive Phase where
  | uninitialized
  /-- The task starts a worker. -/
  | initializing (starter : TaskId)
  | ready (worker : Serving)
  /-- Given up until somebody asks for another try. -/
  | unavailable
deriving DecidableEq, Repr

def Phase.name : Phase → String
  | .uninitialized => "uninitialized"
  | .initializing _ => "initializing"
  | .ready w => if w.busy then "busy" else "ready"
  | .unavailable => "unavailable"

/-- What the engine keeps for a language. -/
structure Slot where
  language : Language
  settings : LanguageSettings
  phase : Phase := .uninitialized
  /-- The executions that want the worker in the order in which they asked; the first one has it. -/
  turn : List TaskId := []
  memory : Memory.Manager
  supervisor : Supervisor
  /-- How many workers were started. -/
  generations : Nat := 0
  /-- The tasks that want the transpiler; the first one has it. -/
  transpilerTurn : List TaskId := []
  transpiler : Option ConnectionId := none
deriving Repr

/-- The worker that serves the slot, if it is of this generation. -/
def Slot.serving? (slot : Slot) (generation : Nat) : Option Serving :=
  match slot.phase with
  | .ready w => if w.generation = generation then some w else none
  | _ => none

/-! ### Tasks -/

structure Completion where
  value : Json
  console : List Wire.ConsoleEntry
  debug : List Wire.DebugEntry
deriving Repr

/-- An execution that a worker has been asked for. -/
structure Pending where
  id : Uuid
  owner : TaskId
  language : Language
  generation : Nat
  timeout : Duration
  console : List Wire.ConsoleEntry := []
  debug : List Wire.DebugEntry := []
deriving Repr

/-- An execution that somebody wants. -/
structure Call where
  request : Wire.Request
  /-- Its job in the throttle, unless it goes past it. -/
  job : Option Throttle.Job := none
deriving Repr

/-- Instrumented code, and whether the cache had it. -/
structure Script where
  code : String
  hit : Bool
deriving DecidableEq, Repr

/-- An execution on its worker. -/
structure Dispatch where
  script : Script
  connection : ConnectionId
  generation : Nat
  timeout : Duration
deriving DecidableEq, Repr

/-- Where an execution waits. -/
inductive ExecutionPoint where
  | queued
  | fresh
  | transpilerTurn (source : String)
  | transpilerSpawning (source : String)
  | transpilerReady (source : String) (c : ConnectionId) (deadline : Duration)
  | transpilerPosting (source : String) (c : ConnectionId)
  | transpilerReply (source : String) (c : ConnectionId) (request : Uuid) (deadline : Duration)
  | caching (code : String)
  | turn (script : Script)
  | initializing (script : Script) (starter : TaskId)
  | posting (d : Dispatch)
  | reply (d : Dispatch) (deadline : Duration)
  | cleanup (d : Dispatch) (m : HostMessage) (result : Except Failure Completion)

/-- Where the start of a worker waits. -/
inductive StartPoint where
  | fresh
  | spawning (generation : Nat)
  /-- Waits for the worker to get ready; the signal tells whether it did. -/
  | awaiting (generation : Nat) (c : ConnectionId) (deadline : Duration) (signal : Option Bool)

inductive ShutdownPoint where
  | fresh (order : Language.Order)
  /-- Waits for the transpiler of a language; the languages after it come next. -/
  | transpilerTurn (language : Language) (rest : List Language)

/-- What becomes of a task. -/
inductive Outcome where
  | report (r : Except Failure Wire.Report)
  | ready (r : Except Failure Unit)
  | flag (b : Bool)
  | quiet
  /-- The task broke, and whoever waited for it breaks as well. -/
  | broken

inductive Task where
  | execution (call : Call) (point : ExecutionPoint)
  | start (language : Language) (point : StartPoint)
  /-- Hears what a worker tells; the starter is to learn that the worker is ready. -/
  | route (language : Language) (generation : Nat) (c : ConnectionId) (starter : Option TaskId)
  | restart (language : Language) (at_ : Duration)
  /-- Wants a worker to be ready; waits for its starter. -/
  | warmUp (language : Language) (starter : Option TaskId)
  /-- Wants an execution to stop; has a message for a worker. -/
  | cancel (id : Uuid) (c : Option ConnectionId)
  | debounce (generation : Nat) (at_ : Duration)
  | shutdown (point : ShutdownPoint)
  | done (o : Outcome)

/-! ### The whole engine -/

/-- An attempt to start a worker. -/
structure Spawn where
  language : Language
  command : List String
deriving DecidableEq, Repr

/-- Tells of an attempt and the earlier ones how the attempt fails, if it does. -/
abbrev Spawner := List Spawn → Spawn → Option Failure

structure State where
  settings : Settings
  spawner : Spawner
  slots : List Slot
  cache : ScriptCache String
  throttle : Throttle.State
  now : Duration := .zero
  spawns : List Spawn := []
  connections : List Connection := []
  pending : List Pending := []
  /-- Replies to executions that have not been looked at. -/
  answers : List (TaskId × Except Failure Completion) := []
  events : List Event := []
  tasks : List Task := []
  /-- When executions began to run. -/
  begun : List (TaskId × Duration) := []
  /-- How often a transpiler was asked. -/
  requests : Nat := 0
  closed : Bool := false

/-- Each language has one slot; of several settings for it the last ones count. -/
def slotsOf (s : Settings) : List Slot :=
  let configured := (s.languageSettings?).getD []
  Language.all.filterMap fun l =>
    ((configured.filter (·.1 = l)).getLast?).map fun (_, settings) =>
      { language := l, settings, memory := { settings := s.memory },
        supervisor := { policy := s.engine.restart } }

namespace State

def ofSettings (settings : Settings) (spawner : Spawner) : State where
  settings := settings
  spawner := spawner
  slots := slotsOf settings
  cache := .empty settings.cache.maxMemoryBytes settings.cache.k
  throttle := { settings := settings.throttle }

variable (s : State)

def slot? (l : Language) : Option Slot := s.slots.find? (·.language = l)

def modifySlot (l : Language) (f : Slot → Slot) : State :=
  { s with slots := s.slots.map fun slot => if slot.language = l then f slot else slot }

def modifyConnection (c : ConnectionId) (f : Connection → Connection) : State :=
  { s with connections := s.connections.modify c f }

def setTask (i : TaskId) (t : Task) : State := { s with tasks := s.tasks.set i t }

/-- Adds a task behind all others. -/
def addTask (t : Task) : State := { s with tasks := s.tasks ++ [t] }

def emit (language : Language) (id : Option Uuid) (kind : EventKind) : State :=
  { s with events := s.events ++ [⟨language, id, kind⟩] }

def setPhase (l : Language) (phase : Phase) : State := s.modifySlot l fun slot => { slot with phase }

def terminate (c : ConnectionId) : State := s.modifyConnection c Connection.terminate

def isGone (c : ConnectionId) : Bool :=
  match s.connections[c]? with
  | some c => c.gone
  | none => true

/-- Takes the next event of a worker. -/
def hear (c : ConnectionId) : Option WorkerEvent × State :=
  match (s.connections[c]?).bind (·.outbox.head?) with
  | some e => (some e, s.modifyConnection c fun c => { c with outbox := c.outbox.drop 1 })
  | none => (none, s)

def findPending (id : Uuid) : Option Pending := s.pending.find? (·.id = id)

def removePending (id : Uuid) : State := { s with pending := s.pending.filter (·.id ≠ id) }

/-- Tries to start a worker. -/
def spawn (language : Language) (command : List String) : Except Failure ConnectionId × State :=
  let attempt : Spawn := ⟨language, command⟩
  let s' := { s with spawns := s.spawns ++ [attempt] }
  match s.spawner s.spawns attempt with
  | some f => (.error f, s')
  | none =>
    (.ok s.connections.length,
      { s' with connections := s.connections ++ [{ pid := s'.spawns.length }] })

end State

end Scratchpad.Engine
