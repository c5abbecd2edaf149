import Scratchpad.Failure
import Scratchpad.Wire.Message

/-! The channels between an engine and one worker. -/
namespace Scratchpad.Engine

open Wire (HostMessage WorkerMessage)

inductive WorkerEvent where
  | message (m : WorkerMessage)
  | exited (e : WorkerExit)

structure Connection where
  /-- The number of the process. -/
  pid : Nat
  /-- Messages that the worker has not taken yet. -/
  inbox : List HostMessage := []
  /-- What the worker told and nobody heard yet. -/
  outbox : List WorkerEvent := []
  /-- The worker was asked to go away. -/
  terminated : Bool := false
  /-- The worker went away. -/
  gone : Bool := false

namespace Connection

/-- So many messages wait for a worker at most. -/
def capacity : Nat := 256

variable (c : Connection)

/-- Whether a message can be sent, or cannot ever be sent, right now. -/
def acceptsNow : Bool := c.gone || c.inbox.length < capacity

/-- Whether there is something to hear, if only that the worker is gone. -/
def hasNews : Bool := !c.outbox.isEmpty || c.gone

def post (m : HostMessage) : Connection := { c with inbox := c.inbox ++ [m] }

def tell (m : WorkerMessage) : Connection := { c with outbox := c.outbox ++ [.message m] }

/-- The worker goes away and says so. -/
def leave (e : WorkerExit) : Connection :=
  { c with outbox := c.outbox ++ [.exited e], inbox := [], gone := true }

/-- The worker goes away without a word. -/
def vanish : Connection := { c with inbox := [], gone := true }

def terminate : Connection := { c with terminated := true }

end Connection

/-- What is said when a message finds its worker gone. -/
def undelivered (m : HostMessage) : Failure :=
  .protocol s!"worker closed before '{m.kind}' was sent"

end Scratchpad.Engine
