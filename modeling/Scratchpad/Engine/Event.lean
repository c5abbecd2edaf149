import Scratchpad.Wire.Request

/-! What an engine tells its listeners. -/
namespace Scratchpad.Engine

inductive EventKind where
  | console (entry : Wire.ConsoleEntry)
  | debug (entry : Wire.DebugEntry)
  | status (text : String)
  | complete (value : Json)
  | error (text : String)
deriving Repr

structure Event where
  language : Language
  /-- The run that the event belongs to. -/
  id : Option Uuid
  kind : EventKind
deriving Repr

/-- Whether the event ends a run. -/
def Event.isTerminal (e : Event) : Bool :=
  match e.kind with
  | .complete _ | .error _ => true
  | _ => false

def EventKind.toJson : EventKind → Json
  | .console e => .object [("console", e.toJson)]
  | .debug e => .object [("debug", e.toJson)]
  | .status text => .object [("status", .string text)]
  | .complete value => .object [("complete", value)]
  | .error text => .object [("error", .string text)]

def Event.toJson (e : Event) : Json :=
  .object [("id", .ofOption Wire.uuidJson e.id), ("kind", e.kind.toJson),
    ("language", .string e.language.name), ("terminal", .bool e.isTerminal)]

/-- A listener misses the oldest events when there are more than fit the channel. The channel has
room for a power of two. -/
def channelRoom (capacity : Nat) : Nat := capacity.nextPowerOfTwo

/-- How many of some unheard events are lost, and those that are not. -/
def heard (capacity : Nat) (events : List Event) : Nat × List Event :=
  let lost := events.length - channelRoom capacity
  (lost, events.drop lost)

end Scratchpad.Engine
