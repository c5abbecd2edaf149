import Scratchpad.Engine.Worker

/-!
Executions: the code is instrumented, looked up in the cache and sent to the worker of its language
when it is its turn; then the reply is awaited.
-/
namespace Scratchpad.Engine

open Wire (HostMessage WorkerMessage)

namespace State

variable (s : State)

/-- Does what the throttle asks for. A job bears the number of its task for a ticket. -/
def perform (s : State) : Throttle.Effect → State
  | .start job =>
    match s.tasks[job.ticket]? with
    | some (.execution call _) => s.setTask job.ticket (.execution call .fresh)
    | _ => s
  | .reject job why => s.setTask job.ticket (.done (.report (.error why.toFailure)))
  | .lose job => s.setTask job.ticket (.done .broken)
  | .wake generation at_ => s.addTask (.debounce generation at_)

def throttled (r : Throttle.State × List Throttle.Effect) : State :=
  r.2.foldl perform { s with throttle := r.1 }

/-! ### The end -/

/-- How long an execution has been running. -/
def elapsed (i : TaskId) : Duration := ⟨s.now.nanos - ((s.begun.lookup i).getD s.now).nanos⟩

def finish (i : TaskId) (call : Call) (r : Except Failure Wire.Report) : State :=
  let s := s.setTask i (.done (.report r))
  match call.job with
  | none => s
  | some _ => s.throttled (Throttle.finish s.now s.throttle (s.elapsed i))

/-- Leaves the worker to the next execution. -/
def passTurn (i : TaskId) (language : Language) : State :=
  s.modifySlot language fun slot => { slot with turn := slot.turn.filter (· ≠ i) }

/-- The worker is not busy any more, if it is still the same one. -/
def release (language : Language) (generation : Nat) (id : Uuid) : State :=
  (s.removePending id).modifySlot language fun slot =>
    match slot.serving? generation with
    | some w => { slot with phase := .ready { w with busy := false, current := none } }
    | none => slot

/-- An execution ends before it came to a worker. -/
def giveUpTurn (i : TaskId) (call : Call) (f : Failure) : State :=
  (s.passTurn i call.request.language).finish i call (.error f)

/-- An execution ends that came to a worker. -/
def conclude (i : TaskId) (call : Call) (d : Dispatch) (result : Except Failure Completion) :
    State :=
  let r := call.request
  let s := (s.release r.language d.generation r.id).passTurn i r.language
  s.finish i call (result.map fun c =>
    { id := r.id, language := r.language, value := c.value, console := c.console, debug := c.debug,
      durationMillis := (s.elapsed i).millis, cacheHit := d.script.hit })

/-- An execution breaks after its worker got the message. The throttle catches that, and it looks like
a shutdown then. -/
def breakOff (i : TaskId) (call : Call) (d : Dispatch) : State :=
  match call.job with
  | some _ => s.conclude i call d (.error .shutdown)
  | none =>
    let r := call.request
    ((s.release r.language d.generation r.id).passTurn i r.language).setTask i (.done .broken)

/-! ### Preparation -/

def at_ (i : TaskId) (call : Call) (point : ExecutionPoint) : State :=
  s.setTask i (.execution call point)

def optionsFor (slot : Slot) (r : Wire.Request) : Instrument.Options :=
  r.options.applyTo slot.settings.instrumentOptions

/-- The transpiled code is instrumented; what could not be transpiled may be recovered. -/
def postprocess (i : TaskId) (call : Call) (slot : Slot) (source : String)
    (transpiled : Except Text.Diagnostic String) : State :=
  let o := optionsFor slot call.request
  let code : Except Text.Diagnostic String := match transpiled with
    | .ok code => .ok (Instrument.postprocess code slot.language o)
    | .error fault => Instrument.recover source slot.language o fault
  match code with
  | .ok code => s.at_ i call (.caching code)
  | .error fault => s.finish i call (.error (.transpile fault))

/-- Notes when an execution begins to run. -/
def clockIn (i : TaskId) : State := { s with begun := s.begun ++ [(i, s.now)] }

def begin_ (i : TaskId) (call : Call) : State :=
  let r := call.request
  let s := s.clockIn i
  if s.closed then s.finish i call (.error .shutdown)
  else
    match s.slot? r.language with
    | none => s.finish i call (.error (.unsupportedLanguage r.language))
    | some slot =>
      if slot.settings.instrument then
        let source := Instrument.preprocess r.code r.language (optionsFor slot r)
        if slot.settings.transpilerCommand.isSome then
          let s := s.modifySlot r.language fun slot =>
            { slot with transpilerTurn := slot.transpilerTurn ++ [i] }
          s.at_ i call (.transpilerTurn source)
        else s.postprocess i call slot source (Instrument.transpile source r.language)
      else s.at_ i call (.caching r.code)

/-! ### Transpilers -/

/-- What a transpiler makes of some code. -/
inductive Transpiled where
  | code (text : String)
  | rejected (fault : Text.Diagnostic)
  /-- The transpiler has no answer. -/
  | unavailable

/-- The transpiler is left to the next task; the built-in one takes its place if it has no answer. -/
def endTranspile (i : TaskId) (call : Call) (source : String) (t : Transpiled) : State :=
  let language := call.request.language
  let s := s.modifySlot language fun slot =>
    { slot with transpilerTurn := slot.transpilerTurn.filter (· ≠ i) }
  match s.slot? language with
  | none => s.finish i call (.error (.unsupportedLanguage language))
  | some slot =>
    s.postprocess i call slot source <|
      match t with
      | .code text => .ok text
      | .rejected fault => .error fault
      | .unavailable => Instrument.transpile source language

/-- The transpiler is given up. -/
def dropTranspiler (i : TaskId) (call : Call) (source : String) (c : ConnectionId) : State :=
  let s := s.modifySlot call.request.language fun slot => { slot with transpiler := none }
  (s.terminate c).endTranspile i call source .unavailable

def takeTranspiler (i : TaskId) (call : Call) (source : String) : State :=
  match (s.slot? call.request.language).bind (·.transpiler) with
  | some c => s.at_ i call (.transpilerPosting source c)
  | none => s.at_ i call (.transpilerSpawning source)

def spawnTranspiler (i : TaskId) (call : Call) (source : String) : State :=
  let language := call.request.language
  let command := ((s.slot? language).bind (·.settings.transpilerCommand)).getD []
  match s.spawn language command with
  | (.error _, s) => s.endTranspile i call source .unavailable
  | (.ok c, s) =>
    s.at_ i call (.transpilerReady source c (s.now.add s.settings.engine.readyTimeout))

def awaitTranspiler (i : TaskId) (call : Call) (source : String) (c : ConnectionId) : State :=
  match s.hear c with
  | (some (.message .ready), s) =>
    let s := s.modifySlot call.request.language fun slot => { slot with transpiler := some c }
    s.at_ i call (.transpilerPosting source c)
  | (some (.message _), s) => s
  | (some (.exited _), s) => s.endTranspile i call source .unavailable
  | (none, s) =>
    (if s.isGone c then s else s.terminate c).endTranspile i call source .unavailable

def fileExtension : Language → String
  | .javascript => "js"
  | .typescript => "ts"
  | .python => "py"

/-- The number of a request to a transpiler; no request has the number of another one. -/
def requestId (n : Nat) : Uuid := ⟨Nat.pow 2 128 - 1 - n⟩

/-- How long a transpiler may take. An engine in whose settings the sum is not a span is not built. -/
def transpilerTimeout (language : Language) : Duration :=
  let limit := ((s.slot? language).map (·.settings.defaultTimeout)).getD .zero
  limit.add s.settings.engine.safetyGrace

def postTranspile (i : TaskId) (call : Call) (source : String) (c : ConnectionId) : State :=
  let language := call.request.language
  let id := requestId s.requests
  let s := { s with requests := s.requests + 1 }
  if s.isGone c then s.dropTranspiler i call source c
  else
    let m := HostMessage.transpile id source ⟨language, some s!"snippet.{fileExtension language}"⟩
    let s := s.modifyConnection c (·.post m)
    s.at_ i call (.transpilerReply source c id (s.now.add (s.transpilerTimeout language)))

/-- Why a transpiler refuses some code. -/
def rejection (report : ErrorReport) (timeout : Duration) : Text.Diagnostic :=
  match Failure.ofReport report timeout with
  | .transpile fault => fault
  | f => ⟨⟨0, 0⟩, .reported f.message⟩

def awaitTranspiled (i : TaskId) (call : Call) (source : String) (c : ConnectionId)
    (request : Uuid) : State :=
  match s.hear c with
  | (some (.message m), s) =>
    if m.id? = some request then
      match m with
      | .complete _ (.string code) => s.endTranspile i call source (.code code)
      | .complete _ _ => s.endTranspile i call source .unavailable
      | .error _ report =>
        let timeout := s.transpilerTimeout call.request.language
        s.endTranspile i call source (.rejected (rejection report timeout))
      | _ => s
    else s
  | (_, s) => s.dropTranspiler i call source c

/-! ### The worker -/

def lookUp (i : TaskId) (call : Call) (code : String) : State :=
  let (cache, found) := s.cache.getOrCreate code fun _ code => code
  let s := { s with cache }
  let s := s.modifySlot call.request.language fun slot => { slot with turn := slot.turn ++ [i] }
  s.at_ i call (.turn ⟨found.artifact, found.hit⟩)

/-- Takes the worker, if there is one. -/
def engage (i : TaskId) (call : Call) (script : Script) : State :=
  let r := call.request
  match s.slot? r.language with
  | some slot =>
    match slot.phase with
    | .ready w =>
      let timeout := r.options.timeout.getD slot.settings.defaultTimeout
      let s := s.setPhase r.language (.ready { w with busy := true, current := some r.id })
      let s := s.removePending r.id
      let p : Pending :=
        { id := r.id, owner := i, language := r.language, generation := w.generation, timeout }
      let s := { s with pending := s.pending ++ [p] }
      s.at_ i call (.posting ⟨script, w.connection, w.generation, timeout⟩)
    | _ => s.giveUpTurn i call (.crash r.language none)
  | none => s.giveUpTurn i call (.crash r.language none)

def takeTurn (i : TaskId) (call : Call) (script : Script) : State :=
  match s.ensureReady call.request.language with
  | (.settled (.ok _), s) => s.engage i call script
  | (.settled (.error f), s) => s.giveUpTurn i call f
  | (.starting starter, s) => s.at_ i call (.initializing script starter)

def awaitInitialized (i : TaskId) (call : Call) (script : Script) (starter : TaskId) : State :=
  match s.tasks[starter]? with
  | some (.done (.ready (.ok _))) => s.engage i call script
  | some (.done (.ready (.error f))) => s.giveUpTurn i call f
  | _ => s

def executeMessage (r : Wire.Request) (d : Dispatch) (debugFunction : String) : HostMessage :=
  .execute r.id d.script.code r.language
    ⟨d.timeout.millis, r.options.showUndefined, some debugFunction⟩

/-- The safety timer starts behind the message; the execution breaks if its span is not one. -/
def postExecute (i : TaskId) (call : Call) (d : Dispatch) : State :=
  let r := call.request
  let debugFunction := ((s.slot? r.language).map (·.settings.debugFunctionName)).getD ""
  let m := executeMessage r d debugFunction
  if s.isGone d.connection then s.conclude i call d (.error (undelivered m))
  else
    let s := s.modifyConnection d.connection (·.post m)
    match d.timeout.add? s.settings.engine.safetyGrace with
    | some safety => s.at_ i call (.reply d (s.now.add safety))
    | none => s.breakOff i call d

/-- Whether the worker goes on after a run that ended like this. -/
def survives : Except Failure Completion → Bool
  | .error (.crash ..) | .error .shutdown | .error (.timeout .hard _) => false
  | _ => true

/-- Counts the run and cleans up after it. -/
def cleanUp (i : TaskId) (call : Call) (d : Dispatch) (slot : Slot)
    (result : Except Failure Completion) : State :=
  let language := call.request.language
  let (memory, level) := slot.memory.afterExecution
  let s := s.modifySlot language fun slot => { slot with memory }
  let s := match memory.escalation level with
    | some stats => s.emit language none (.status
        (s!"{language.name} interpreter memory critical ({stats.heapUsed} bytes in use), " ++
          "restarting worker"))
    | none => s
  match level with
  | .none => s.conclude i call d result
  | .light => s.at_ i call (.cleanup d .gc result)
  | .full => s.at_ i call (.cleanup d (.reset memory.settings.preservedNames) result)
  | .critical => (s.recycle language d.generation).conclude i call d result

def afterReply (i : TaskId) (call : Call) (d : Dispatch) (result : Except Failure Completion) :
    State :=
  match s.slot? call.request.language with
  | some slot =>
    if survives result && slot.settings.memoryManagement then s.cleanUp i call d slot result
    else s.conclude i call d result
  | none => s.conclude i call d result

def isOwner (i : TaskId) (p : Pending) : Bool := p.owner = i

/-- The worker kept silent for too long. -/
def expire (i : TaskId) (call : Call) (d : Dispatch) : State :=
  let r := call.request
  let f := Failure.timeout .hard (d.timeout.add s.settings.engine.safetyGrace)
  let s := (s.removePending r.id).emit r.language (some r.id) (.error f.message)
  let s := if s.settings.engine.recycleOnHardTimeout then s.recycle r.language d.generation else s
  s.afterReply i call d (.error f)

/-- Takes the reply, or gives up. Nobody replies any more to an execution that is not pending. -/
def awaitReply (i : TaskId) (call : Call) (d : Dispatch) : State :=
  if s.pending.any (isOwner i) then s.expire i call d
  else
    let result := (s.answers.lookup i).getD (.error .shutdown)
    let s := { s with answers := s.answers.filter (·.1 ≠ i) }
    s.afterReply i call d result

def postCleanup (i : TaskId) (call : Call) (d : Dispatch) (m : HostMessage)
    (result : Except Failure Completion) : State :=
  let s := if s.isGone d.connection then s else s.modifyConnection d.connection (·.post m)
  s.conclude i call d result

/-- One stretch of an execution. -/
def resumeExecution (i : TaskId) (call : Call) : ExecutionPoint → State
  | .queued => s
  | .fresh => s.begin_ i call
  | .transpilerTurn source => s.takeTranspiler i call source
  | .transpilerSpawning source => s.spawnTranspiler i call source
  | .transpilerReady source c _ => s.awaitTranspiler i call source c
  | .transpilerPosting source c => s.postTranspile i call source c
  | .transpilerReply source c request _ => s.awaitTranspiled i call source c request
  | .caching code => s.lookUp i call code
  | .turn script => s.takeTurn i call script
  | .initializing script starter => s.awaitInitialized i call script starter
  | .posting d => s.postExecute i call d
  | .reply d _ => s.awaitReply i call d
  | .cleanup d m result => s.postCleanup i call d m result

end State

end Scratchpad.Engine
