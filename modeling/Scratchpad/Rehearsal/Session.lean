import Scratchpad.Rehearsal.Program

/-! A host that talks to one program. -/
namespace Scratchpad.Rehearsal

open Engine (WorkerEvent)
open Wire (HostMessage)

structure Session where
  program : Program
  /-- What the program does next. -/
  acts : List Act
  /-- The host asked the program to go away. -/
  terminated : Bool := false
  /-- The host heard that the program is gone. -/
  isOver : Bool := false
  /-- A message got lost because the program is gone. -/
  lost : Bool := false

namespace Session

/-- A program starts in a folder, unless it cannot. -/
def start (folder : Folder) (place : Except FileFault Folder.Place) (language : Language)
    (command : List String) : Except Failure Session :=
  match Program.fault? folder place command, place with
  | some reason, _ => .error (.initialization language reason)
  | none, .ok place =>
    let (program, acts) := Program.proceed { folder, place, command }
    .ok { program, acts }
  | none, .error f => .error (.initialization language f.message)

/-- What a host hears when it listens. -/
inductive Heard where
  | event (e : WorkerEvent)
  | closed
  /-- The program waits for the host. -/
  | nothing

variable (s : Session)

def exit (e : WorkerExit) : Heard × Session :=
  (.event (.exited e), { s with acts := [], isOver := true })

/-- Listens until there is something to hear; a program that sleeps or waits can be ended. -/
def listen (s : Session) : List Act → Heard × Session
  | .say m :: acts => (.event (.message m), { s with acts })
  | .leave e :: _ => s.exit e
  | .sleep _ :: acts => if s.terminated then s.exit Program.signalled else s.listen acts
  | _ :: acts => s.listen acts
  | [] =>
    if s.isOver then (.closed, s)
    else if s.terminated then s.exit Program.signalled
    else (.nothing, { s with acts := [] })

def next : Heard × Session := s.listen s.acts

/-- Sends a message. The first one that comes too late gets lost. -/
def send (m : HostMessage) : Except Failure Unit × Session :=
  if s.lost then (.error (Engine.undelivered m), s)
  else if s.isOver then (.ok (), { s with lost := true })
  else
    let (program, acts) := s.program.hear m
    (.ok (), { s with program, acts := s.acts ++ acts })

def terminate : Session := { s with terminated := true }

end Session

end Scratchpad.Rehearsal
