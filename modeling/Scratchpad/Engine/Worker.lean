import Scratchpad.Engine.State

/-! How workers come, what they tell, and how they go. -/
namespace Scratchpad.Engine

open Wire (HostMessage WorkerMessage)

namespace State

variable (s : State)

/-- A worker failed: it is started again after a while, or not at all. -/
def scheduleRestart (language : Language) : State :=
  if s.closed then s
  else
    match s.slot? language with
    | none => s
    | some slot =>
      let (supervisor, decision) := slot.supervisor.recordFailure
      let s := s.modifySlot language fun slot => { slot with supervisor }
      match decision with
      | .retry _ delay => s.addTask (.restart language (s.now.add delay))
      | .giveUp attempts =>
        let s := if slot.phase = .uninitialized then s.setPhase language .unavailable else s
        s.emit language none (.status
          s!"{language.name} worker unavailable after {attempts} restart attempts, retry required")

/-- Ends some pending executions. -/
def rejectPending (rejected : Pending → Bool) (f : Pending → Failure) : State :=
  let gone := s.pending.filter rejected
  let s := { s with pending := s.pending.filter fun p => !rejected p }
  gone.foldl (fun s p =>
    let s := s.emit p.language (some p.id) (.error (f p).message)
    { s with answers := s.answers ++ [(p.owner, .error (f p))] }) s

/-- Whether an execution runs on the worker of a generation. -/
def runsOn (language : Language) (generation : Nat) (p : Pending) : Bool :=
  p.language = language && p.generation = generation

/-- Puts a worker out of service. -/
def recycle (language : Language) (generation : Nat) : State :=
  match (s.slot? language).bind (·.serving? generation) with
  | none => s
  | some w =>
    ((s.setPhase language .uninitialized).terminate w.connection).rejectPending
      (runsOn language generation) fun _ => .crash language none

/-- A worker is gone. If it was in service, its execution ends and another worker may be started. -/
def onExit (language : Language) (generation : Nat) (e : WorkerExit) : State :=
  match (s.slot? language).bind (·.serving? generation) with
  | none => s
  | some _ =>
    let s := (s.setPhase language .uninitialized).rejectPending
      (runsOn language generation) fun _ => .crash language e.code
    if s.closed then s
    else if e.isClean then s.emit language none (.status s!"{language.name} worker exited")
    else
      let s := s.emit language none (.status s!"{language.name} worker crashed ({e.text})")
      s.scheduleRestart language

/-- Changes what is kept of an execution. -/
def modifyPending (id : Uuid) (f : Pending → Pending) : State :=
  { s with pending := s.pending.map fun p => if p.id = id then f p else p }

/-- Ends an execution that its worker has done with. -/
def answer (p : Pending) (kind : EventKind) (result : Except Failure Completion)
    (language : Language) : State :=
  let s := (s.removePending p.id).emit language (some p.id) kind
  { s with answers := s.answers ++ [(p.owner, result)] }

/-- What a worker tells of an execution counts only while the execution is pending. -/
def hearMessage (language : Language) (generation : Nat) : WorkerMessage → State
  | .ready => s
  | .console id kind data =>
    let entry : Wire.ConsoleEntry := ⟨kind, data⟩
    match s.findPending id with
    | none => s
    | some _ =>
      (s.modifyPending id fun p => { p with console := p.console ++ [entry] }).emit language
        (some id) (.console entry)
  | .debug id line data =>
    let entry : Wire.DebugEntry := ⟨line, data⟩
    match s.findPending id with
    | none => s
    | some _ =>
      (s.modifyPending id fun p => { p with debug := p.debug ++ [entry] }).emit language
        (some id) (.debug entry)
  | .complete id value =>
    match s.findPending id with
    | none => s
    | some p => s.answer p (.complete value) (.ok ⟨value, p.console, p.debug⟩) language
  | .error id report =>
    match s.findPending id with
    | none => s
    | some p =>
      let f := Failure.ofReport report p.timeout
      s.answer p (.error f.message) (.error f) language
  | .status id text => s.emit language id (.status text)
  | .memory report =>
    s.modifySlot language fun slot =>
      if slot.generations = generation then { slot with memory := slot.memory.observe report }
      else slot

/-! ### Starting -/

/-- Whether a language has a worker, cannot have one, or gets one. -/
inductive Readiness where
  | settled (r : Except Failure Unit)
  | starting (starter : TaskId)

/-- Starts a worker unless there is one or one is being started. -/
def ensureReady (language : Language) : Readiness × State :=
  if s.closed then (.settled (.error .shutdown), s)
  else
    match s.slot? language with
    | none => (.settled (.error (.unsupportedLanguage language)), s)
    | some slot =>
      match slot.phase with
      | .ready _ => (.settled (.ok ()), s)
      | .unavailable => (.settled (.error (.unavailable language)), s)
      | .initializing starter => (.starting starter, s)
      | .uninitialized =>
        let starter := s.tasks.length
        (.starting starter,
          (s.addTask (.start language .fresh)).setPhase language (.initializing starter))

/-- The start of a worker failed. -/
def failStart (i : TaskId) (language : Language) (f : Failure) : State :=
  let s := (s.setPhase language .uninitialized).emit language none (.status f.message)
  (s.scheduleRestart language).setTask i (.done (.ready (.error f)))

/-- A worker is ready and enters service. -/
def enterService (i : TaskId) (language : Language) (generation : Nat) (c : ConnectionId) : State :=
  if s.closed then
    ((s.terminate c).setPhase language .uninitialized).setTask i
      (.done (.ready (.error .shutdown)))
  else
    let s := s.modifySlot language fun slot =>
      { slot with
        phase := .ready { connection := c, generation }
        supervisor := slot.supervisor.reset
        memory := slot.memory.reset }
    s.setTask i (.done (.ready (.ok ())))

/-- Failures to start a worker are of one kind. -/
def asInitialization (language : Language) : Failure → Failure
  | .initialization l reason => .initialization l reason
  | f => .initialization language f.message

/-- One stretch of the start of a worker. -/
def resumeStart (i : TaskId) (language : Language) : StartPoint → State
  | .fresh =>
    let generation := ((s.slot? language).map (·.generations)).getD 0 + 1
    let s := s.modifySlot language fun slot => { slot with generations := generation }
    s.setTask i (.start language (.spawning generation))
  | .spawning generation =>
    match s.slot? language with
    | none => s.setTask i (.done (.ready (.error (.unsupportedLanguage language))))
    | some slot =>
      match s.spawn language slot.settings.workerCommand with
      | (.error f, s) => s.failStart i language (asInitialization language f)
      | (.ok c, s) =>
        let deadline := s.now.add s.settings.engine.readyTimeout
        let s := s.addTask (.route language generation c (some i))
        s.setTask i (.start language (.awaiting generation c deadline none))
  | .awaiting generation c _ signal =>
    match signal with
    | some true => s.enterService i language generation c
    | some false =>
      (s.terminate c).failStart i language
        (.initialization language "worker exited before sending ready")
    | none =>
      let limit := s.settings.engine.readyTimeout.renderShort
      (s.terminate c).failStart i language
        (.initialization language s!"no ready message within {limit}")

/-- Tells a starter whether its worker is ready. -/
def signal (starter : Option TaskId) (ready : Bool) : State :=
  match starter with
  | none => s
  | some i =>
    match s.tasks[i]? with
    | some (.start language (.awaiting generation c deadline none)) =>
      s.setTask i (.start language (.awaiting generation c deadline (some ready)))
    | _ => s

/-- The worker is gone, and nobody will hear of it any more. -/
def endRoute (i : TaskId) (language : Language) (generation : Nat) (starter : Option TaskId)
    (e : WorkerExit) : State :=
  ((s.signal starter false).onExit language generation e).setTask i (.done .quiet)

/-- Hears one event of a worker. -/
def resumeRoute (i : TaskId) (language : Language) (generation : Nat) (c : ConnectionId)
    (starter : Option TaskId) : State :=
  match s.hear c with
  | (some (.message .ready), s) =>
    (s.signal starter true).setTask i (.route language generation c none)
  | (some (.message m), s) => s.hearMessage language generation m
  | (some (.exited e), s) => s.endRoute i language generation starter e
  | (none, s) =>
    s.endRoute i language generation starter ⟨none, some "worker channel closed"⟩

/-- One stretch of a task that wants a worker to be ready. -/
def resumeWarmUp (i : TaskId) (language : Language) : Option TaskId → State
  | none =>
    match s.ensureReady language with
    | (.settled r, s) => s.setTask i (.done (.ready r))
    | (.starting starter, s) => s.setTask i (.warmUp language (some starter))
  | some starter =>
    match s.tasks[starter]? with
    | some (.done (.ready r)) => s.setTask i (.done (.ready r))
    | _ => s

/-- Forgets the failures of a language, so that it is tried again. -/
def retry (language : Language) : Except Failure Unit × State :=
  match s.slot? language with
  | none => (.error (.unsupportedLanguage language), s)
  | some slot =>
    let phase := if slot.phase = .unavailable then .uninitialized else slot.phase
    (.ok (), s.modifySlot language fun slot =>
      { slot with phase, supervisor := slot.supervisor.reset })

end State

end Scratchpad.Engine
