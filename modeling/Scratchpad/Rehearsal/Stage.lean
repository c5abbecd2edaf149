import Scratchpad.Engine.Step
import Scratchpad.Rehearsal.Script

/-!
An engine whose workers follow scripts. Time passes only when nothing else can happen, and what can
happen happens in the order in which it became possible.
-/
namespace Scratchpad.Rehearsal

open Engine (ConnectionId TaskId Spawn)
open Wire (HostMessage WorkerMessage)

/-- A worker in the middle of its script. -/
structure Player where
  connection : ConnectionId
  language : Language
  acts : List Act
  /-- The run of which the worker was asked last. -/
  about : Option Uuid := none
  asleep : Option Duration := none
  /-- What the worker runs, if it follows no script. -/
  program : Option Program := none
  /-- What the worker is to do of its own accord. -/
  cues : List (List Act) := []

inductive Actor where
  | task (i : TaskId)
  | player (n : Nat)
deriving DecidableEq

/-- What came to workers. -/
inductive Note where
  | spawn (number : Nat) (a : Spawn)
  | message (m : HostMessage)

structure Stage where
  script : Script
  engine : Engine.State
  players : List Player := []
  parts : List (Uuid × Part) := []
  /-- How many replies transpilers have given. -/
  replies : Nat := 0
  notes : List Note := []
  /-- Who can do something, first come first. -/
  queue : List Actor := []
  /-- Tasks in the background, by the numbers of their runs. -/
  background : List (Uuid × TaskId) := []

namespace Stage

def ofSettings (settings : Settings) (script : Script) : Stage :=
  { script, engine := .ofSettings settings script.spawner }

variable (st : Stage)

def connection? (p : Player) : Option Engine.Connection := st.engine.connections[p.connection]?

/-! ### Workers -/

def canPlay (p : Player) : Bool :=
  match st.connection? p with
  | none => false
  | some c =>
    !c.gone &&
      if p.program.isSome && !c.inbox.isEmpty then true
      else match p.asleep with
      | some d => c.terminated || st.engine.due d
      | none => !p.acts.isEmpty || c.terminated || !p.cues.isEmpty || !c.inbox.isEmpty

def setPlayer (n : Nat) (p : Player) : Stage := { st with players := st.players.set n p }

def changeConnection (p : Player) (f : Engine.Connection → Engine.Connection) : Stage :=
  { st with engine := st.engine.modifyConnection p.connection f }

/-- How a worker goes away when it is asked to. -/
def terminatedExit (p : Player) : WorkerExit :=
  if p.program.isSome then Program.signalled else ⟨none, some "terminated"⟩

/-- The same message about another run. -/
def aboutRun (id : Uuid) : WorkerMessage → WorkerMessage
  | .console _ kind data => .console id kind data
  | .debug _ line data => .debug id line data
  | .complete _ data => .complete id data
  | .error _ data => .error id data
  | m => m

def act (n : Nat) (p : Player) (a : Act) (rest : List Act) : Stage :=
  let q := { p with acts := rest }
  match a with
  | .sleep d => st.setPlayer n { q with asleep := some (st.engine.now.add d) }
  | .leave e => st.changeConnection p (·.leave e)
  | .vanish => st.changeConnection p Engine.Connection.vanish
  | .say m => (st.setPlayer n q).changeConnection p (·.tell m)
  | .reply m =>
    let m := match p.about with
      | some id => aboutRun id m
      | none => m
    (st.setPlayer n q).changeConnection p (·.tell m)

/-- The worker takes up a message. -/
def take (n : Nat) (p : Player) (m : HostMessage) : Stage :=
  let st := { st with notes := st.notes ++ [Note.message m] }
  let st := st.changeConnection p fun c => { c with inbox := c.inbox.drop 1 }
  match p.program with
  | some program =>
    let (program, acts) := program.hear m
    st.setPlayer n { p with program := some program, acts := p.acts ++ acts }
  | none =>
  match m with
  | .execute id .. =>
    st.setPlayer n { p with about := some id, acts := ((st.parts.lookup id).map (·.acts)).getD [] }
  | .cancel id =>
    st.setPlayer n
      { p with about := some id, acts := ((st.parts.lookup id).map (·.onCancel)).getD [] }
  | .transpile id .. =>
    let acts := (st.script.transpilerReplies[st.replies]?).getD []
    { st.setPlayer n { p with about := some id, acts } with replies := st.replies + 1 }
  | .gc | .reset _ => st

/-- A worker does the next thing. -/
def play (n : Nat) (p : Player) (c : Engine.Connection) : Stage :=
  match p.program, c.inbox with
  | some _, m :: _ => st.take n p m
  | _, _ =>
  match p.asleep with
  | some _ =>
    if c.terminated then st.changeConnection p (·.leave (terminatedExit p))
    else st.setPlayer n { p with asleep := none }
  | none =>
    match p.acts with
    | a :: rest => st.act n p a rest
    | [] =>
      if c.terminated then st.changeConnection p (·.leave (terminatedExit p))
      else
        match p.cues with
        | cue :: cues => st.setPlayer n { p with acts := cue, cues }
        | [] =>
          match c.inbox with
          | m :: _ => st.take n p m
          | [] => st

/-! ### Turns -/

def canAct : Actor → Bool
  | .task i => st.engine.canResume i
  | .player n => (st.players[n]?).any st.canPlay

/-- Notes what the engine tried to start, and lets new workers enter. -/
def greet (before : Engine.State) : Stage :=
  match st.engine.spawns.drop before.spawns.length with
  | a :: _ =>
    let st := { st with notes := st.notes ++ [Note.spawn st.engine.spawns.length a] }
    if before.connections.length < st.engine.connections.length then
      let (program, acts) := (st.script.entrance before.spawns a).opening
      let p : Player :=
        { connection := before.connections.length, language := a.language, acts, program }
      { st with players := st.players ++ [p] }
    else st
  | [] => st

def perform : Actor → Stage
  | .task i => { st with engine := st.engine.resume i }.greet st.engine
  | .player n =>
    match st.players[n]? with
    | some p =>
      match st.connection? p with
      | some c => st.play n p c
      | none => st
    | none => st

def actors : List Actor :=
  (List.range st.engine.tasks.length).map .task ++ (List.range st.players.length).map .player

/-- Queues those who have become able to do something. -/
def enqueue : Stage :=
  let woken := st.actors.filter fun a => st.canAct a && !st.queue.contains a
  { st with queue := st.queue ++ woken }

/-- Goes on until nobody can do anything; `fuel` bounds the number of turns. -/
def settle : Nat → Stage → Stage
  | 0, st => st
  | fuel + 1, st =>
    let st := st.enqueue
    match st.queue with
    | [] => st
    | a :: queue =>
      if st.canAct a then settle fuel (st.perform a) else settle fuel { st with queue }

/-! ### Time -/

/-- Clocks tell milliseconds. -/
def tick (d : Duration) : Duration := ⟨(d.nanos + 999999) / 1000000 * 1000000⟩

/-- When somebody who waits now stops to wait. -/
def alarms : List Duration :=
  let sleepers := st.players.filter fun p => (st.connection? p).any fun c => !c.gone
  (st.engine.tasks.filterMap Engine.State.deadline? ++ sleepers.filterMap (·.asleep)).map tick
    |>.filter fun d => st.engine.now.nanos < d.nanos

def nextAlarm? : Option Duration :=
  match st.alarms with
  | [] => none
  | d :: ds => some (ds.foldl Duration.min d)

def setClock (now : Duration) : Stage := { st with engine := { st.engine with now } }

/-- How many turns or alarms are waited for. -/
def patience : Nat := 1000000

def settled : Stage := st.settle patience

/-- Lets time pass until a task is done; `fuel` bounds the number of alarms. -/
def awaitFrom (i : TaskId) : Nat → Stage → Stage
  | 0, st => st
  | fuel + 1, st =>
    let st := st.settled
    if st.engine.isDone i then st
    else
      match st.nextAlarm? with
      | some d => awaitFrom i fuel (st.setClock d)
      | none => st

def await (i : TaskId) : Stage := awaitFrom i patience st

/-- Lets time pass up to a moment. -/
def passUntil (target : Duration) : Nat → Stage → Stage
  | 0, st => st
  | fuel + 1, st =>
    let st := st.settled
    match st.nextAlarm? with
    | some d =>
      if d.nanos ≤ target.nanos then passUntil target fuel (st.setClock d)
      else (st.setClock target).settled
    | none => (st.setClock target).settled

def pass (d : Duration) : Stage := passUntil (tick (st.engine.now.add d)) patience st

/-! ### Directions -/

def outcome? (i : TaskId) : Option Engine.Outcome :=
  match st.engine.tasks[i]? with
  | some (.done o) => some o
  | _ => none

/-- Wants something of the engine: the number of the task that cares for it. -/
def want (f : Engine.State → Engine.State) : TaskId × Stage :=
  (st.engine.nextTask, { st with engine := f st.engine })

/-- Wants something and waits for it. -/
def complete (f : Engine.State → Engine.State) : Option Engine.Outcome × Stage :=
  let (i, st) := st.want f
  let st := st.await i
  (st.outcome? i, st.settled)

/-- Wants something in the background. -/
def background_ (id : Uuid) (f : Engine.State → Engine.State) : Stage :=
  let (i, st) := st.want f
  { st with background := (id, i) :: st.background }.settled

/-- Says what workers do for a run. -/
def cast (id : Uuid) (part : Part) : Stage :=
  { st with parts := (id, part) :: st.parts.filter (·.1 ≠ id) }

/-- Waits for something in the background. -/
def join (id : Uuid) : Option Engine.Outcome × Stage :=
  match st.background.lookup id with
  | some i =>
    let st := st.await i
    (st.outcome? i, st)
  | none => (none, st.settled)

/-- The worker of a language that came last does something of its own accord, if it is there. -/
def cue (language : Language) (acts : List Act) : Bool × Stage :=
  let candidates := (List.range st.players.length).filter fun n =>
    (st.players[n]?).any (·.language = language)
  match candidates.getLast?.bind fun n => (st.players[n]?).map (n, ·) with
  | some (n, p) =>
    if (st.connection? p).any fun c => !c.gone then
      (true, (st.setPlayer n { p with cues := p.cues ++ [acts] }).settled)
    else (false, st.settled)
  | none => (false, st.settled)

end Stage

end Scratchpad.Rehearsal
