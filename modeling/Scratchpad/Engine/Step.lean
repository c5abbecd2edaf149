import Scratchpad.Engine.Execution

/-! What may happen to an engine: a task that need not wait goes on, or somebody wants something. -/
namespace Scratchpad.Engine

open Wire (HostMessage WorkerMessage)

namespace State

variable (s : State)

/-! ### Cancelling and shutting down -/

/-- The worker of an execution is told to stop it. -/
def resumeCancel (i : TaskId) (id : Uuid) : Option ConnectionId → State
  | none =>
    match s.findPending id with
    | none => s.setTask i (.done (.flag false))
    | some p =>
      match (s.slot? p.language).bind (·.serving? p.generation) with
      | some w => s.setTask i (.cancel id (some w.connection))
      | none => s.setTask i (.done (.flag true))
  | some c =>
    let s := if s.isGone c then s else s.modifyConnection c (·.post (.cancel id))
    s.setTask i (.done (.flag true))

/-- Puts the worker of a language out of service. -/
def retire (l : Language) : State :=
  match (s.slot? l).map Slot.phase with
  | some (.ready w) => (s.setPhase l .uninitialized).terminate w.connection
  | _ => s.setPhase l .uninitialized

/-- Puts the workers of some languages out of service, until a transpiler has to be waited for. -/
def retireAll (i : TaskId) : List Language → State → State
  | [], s => (s.rejectPending (fun _ => true) fun _ => .shutdown).setTask i (.done .quiet)
  | l :: rest, s =>
    let s := s.retire l
    if ((s.slot? l).bind (·.settings.transpilerCommand)).isSome then
      let s := s.modifySlot l fun slot => { slot with transpilerTurn := slot.transpilerTurn ++ [i] }
      s.setTask i (.shutdown (.transpilerTurn l rest))
    else retireAll i rest s

def retireTranspiler (i : TaskId) (l : Language) : State :=
  let s := match (s.slot? l).bind (·.transpiler) with
    | some c => s.terminate c
    | none => s
  s.modifySlot l fun slot =>
    { slot with transpiler := none, transpilerTurn := slot.transpilerTurn.filter (· ≠ i) }

def resumeShutdown (i : TaskId) : ShutdownPoint → State
  | .fresh order =>
    let s := s.throttled (Throttle.shutdown s.throttle)
    if s.closed then s.setTask i (.done .quiet)
    else
      let languages := order.languages.filter fun l => (s.slot? l).isSome
      retireAll i languages { s with closed := true }
  | .transpilerTurn l rest => retireAll i rest (s.retireTranspiler i l)

/-! ### Tasks -/

def due (deadline : Duration) : Bool := deadline.nanos ≤ s.now.nanos

def hasNews (c : ConnectionId) : Bool :=
  match s.connections[c]? with
  | some c => c.hasNews
  | none => true

def acceptsNow (c : ConnectionId) : Bool :=
  match s.connections[c]? with
  | some c => c.acceptsNow
  | none => true

def isDone (i : TaskId) : Bool :=
  match s.tasks[i]? with
  | some (.done _) => true
  | _ => false

def hasTranspiler (i : TaskId) (l : Language) : Bool :=
  (s.slot? l).any (·.transpilerTurn.head? = some i)

def canExecute (i : TaskId) (call : Call) : ExecutionPoint → Bool
  | .queued => false
  | .fresh | .transpilerSpawning _ | .caching _ => true
  | .transpilerTurn _ => s.hasTranspiler i call.request.language
  | .transpilerReady _ c deadline | .transpilerReply _ c _ deadline => s.hasNews c || s.due deadline
  | .transpilerPosting _ c => s.acceptsNow c
  | .turn _ => (s.slot? call.request.language).any (·.turn.head? = some i)
  | .initializing _ starter => s.isDone starter
  | .posting d | .cleanup d _ _ => s.acceptsNow d.connection
  | .reply _ deadline => !s.pending.any (isOwner i) || s.due deadline

/-- Whether a task need not wait. -/
def canResume (i : TaskId) : Bool :=
  match s.tasks[i]? with
  | none | some (.done _) => false
  | some (.execution call point) => s.canExecute i call point
  | some (.start _ (.awaiting _ _ deadline signal)) => signal.isSome || s.due deadline
  | some (.start ..) => true
  | some (.route _ _ c _) => s.hasNews c
  | some (.restart _ at_) => s.closed || s.due at_
  | some (.warmUp _ none) => true
  | some (.warmUp _ (some starter)) => s.isDone starter
  | some (.cancel _ none) => true
  | some (.cancel _ (some c)) => s.acceptsNow c
  | some (.debounce _ at_) => s.due at_
  | some (.shutdown (.fresh _)) => true
  | some (.shutdown (.transpilerTurn l _)) => s.hasTranspiler i l

/-- A task goes on to the next place where it may have to wait. -/
def resume (i : TaskId) : State :=
  match s.tasks[i]? with
  | none | some (.done _) => s
  | some (.execution call point) => s.resumeExecution i call point
  | some (.start language point) => s.resumeStart i language point
  | some (.route language generation c starter) => s.resumeRoute i language generation c starter
  | some (.restart language _) =>
    if s.closed then s.setTask i (.done .quiet) else s.resumeWarmUp i language none
  | some (.warmUp language starter) => s.resumeWarmUp i language starter
  | some (.cancel id c) => s.resumeCancel i id c
  | some (.debounce generation _) =>
    (s.throttled (Throttle.wake s.now s.throttle generation)).setTask i (.done .quiet)
  | some (.shutdown point) => s.resumeShutdown i point

/-- When a task stops to wait, whatever else happens. -/
def deadline? : Task → Option Duration
  | .execution _ (.transpilerReady _ _ deadline) => some deadline
  | .execution _ (.transpilerReply _ _ _ deadline) => some deadline
  | .execution _ (.reply _ deadline) => some deadline
  | .start _ (.awaiting _ _ deadline _) => some deadline
  | .restart _ at_ => some at_
  | .debounce _ at_ => some at_
  | _ => none

/-! ### Wishes -/

/-- The number of the task that is added next. -/
def nextTask : TaskId := s.tasks.length

/-- An execution that goes past the throttle. -/
def execute (request : Wire.Request) : State :=
  s.addTask (.execution { request } .fresh)

/-- An execution that goes through the throttle. -/
def run (request : Wire.Request) (priority : Throttle.Priority) : State :=
  let job : Throttle.Job := ⟨s.nextTask, request.id.render, priority, s.now⟩
  let s := s.addTask (.execution { request, job := some job } .queued)
  s.throttled (Throttle.enqueue s.now s.throttle job)

def warmUp (language : Language) : State := s.addTask (.warmUp language none)

def cancel (id : Uuid) : State := s.addTask (.cancel id none)

/-- The languages are visited in some order that nobody chooses. -/
def shutdownIn (order : Language.Order) : State := s.addTask (.shutdown (.fresh order))

def shutdown : State := s.shutdownIn .usual

def clearCache : State := { s with cache := s.cache.clear }

/-- The code that a worker would get. Settings count under the name of the language itself. -/
def instrument (code : String) (language : Language) (options : Wire.RequestOptions) :
    Except Text.Diagnostic String :=
  let o := ((s.settings.language? language).map (·.instrumentOptions)).getD {}
  Instrument.transform code language (options.applyTo o)

end State

end Scratchpad.Engine
