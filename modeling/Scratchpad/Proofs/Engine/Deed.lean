import Mathlib.Logic.Relation
import Scratchpad.Proofs.Engine.Queue

/-!
The deeds that a stretch of a task consists of. A deed is large enough to keep the invariants, which
the single assignments inside it do not.
-/
namespace Scratchpad.Engine

open Throttle (Job Effect accounted)

/-! ### Points and tasks -/

/-- The execution has not asked for a worker yet. -/
def ExecutionPoint.isEarly : ExecutionPoint → Bool
  | .fresh | .transpilerTurn _ | .transpilerSpawning _ | .transpilerReady .. | .transpilerPosting ..
  | .transpilerReply .. | .caching _ => true
  | _ => false

/-- What an execution does on a worker that it has marked busy. -/
def ExecutionPoint.dispatch? : ExecutionPoint → Option Dispatch
  | .posting d | .reply d _ | .cleanup d _ _ => some d
  | _ => none

/-- The worker that is on its way. -/
def StartPoint.connection? : StartPoint → Option ConnectionId
  | .awaiting _ c _ _ => some c
  | _ => none

def StartPoint.generation? : StartPoint → Option Nat
  | .fresh => none
  | .spawning generation | .awaiting generation _ _ _ => some generation

/-- Tasks other than executions, starts of workers and their listeners. -/
def Task.isErrand : Task → Bool
  | .restart .. | .warmUp .. | .cancel .. | .debounce .. | .shutdown _ => true
  | _ => false

/-- The task puts one worker after another out of service. -/
def Task.isClosing : Task → Bool
  | .shutdown (.transpilerTurn ..) => true
  | _ => false

/-- The execution came to nothing. -/
def Outcome.isFailed : Outcome → Bool
  | .report (.error _) | .broken => true
  | _ => false

/-- What a report keeps of the completion. -/
def completionOf (r : Wire.Report) : Completion := ⟨r.value, r.console, r.debug⟩

/-- The event and the reply that end a pending execution belong together. -/
def Pending.EndsWith (p : Pending) (kind : EventKind) : Except Failure Completion → Prop
  | .ok c => kind = .complete c.value ∧ c.console = p.console ∧ c.debug = p.debug
  | .error f => kind = .error f.message

/-! ### Connections -/

/-- The worker is there, and nobody asked it to go away. -/
def liveIn (connections : List Connection) (c : ConnectionId) : Bool :=
  (connections[c]?).any fun c => !c.terminated && !c.gone

/-- A worker that said that it went away is gone. -/
def Parted (connections : List Connection) : Prop :=
  ∀ x ∈ connections, ∀ e, .exited e ∈ x.outbox → x.gone = true

/-- Whatever is not live stays so, and who goes away is gone. -/
structure Fading (cs ds : List Connection) : Prop where
  length_le : cs.length ≤ ds.length
  dead : ∀ c < cs.length, liveIn cs c = false → liveIn ds c = false
  parted : Parted cs → Parted ds

/-! ### Deeds -/

/-- No service of a language is touched. -/
structure Quiet (s s' : State) : Prop where
  tasks : s'.tasks = s.tasks
  throttle : s'.throttle = s.throttle
  pending : s'.pending = s.pending
  answers : s'.answers = s.answers
  closed : s'.closed = s.closed
  phase : ∀ l, phaseIn s'.slots l = phaseIn s.slots l
  turn : ∀ l, turnIn s'.slots l = turnIn s.slots l
  generation : ∀ l, generationIn s'.slots l = generationIn s.slots l
  supervisor : ∀ l, supervisorIn s'.slots l = supervisorIn s.slots l
  events : ∃ es, s'.events = s.events ++ es ∧ ∀ e ∈ es, ∃ text, e.kind = .status text
  connections : Fading s.connections s'.connections

/-- A task goes on, and nothing else changes. -/
inductive Advance (s : State) (i : TaskId) : Task → Task → Prop where
  | prepare {call : Call} {p q : ExecutionPoint} (hp : p.isEarly = true) (hq : q.isEarly = true) :
    Advance s i (.execution call p) (.execution call q)
  | abandon {call : Call} {p : ExecutionPoint} {f : Failure} (hp : p.isEarly = true) :
    Advance s i (.execution call p) (.done (.report (.error f)))
  | wait {call : Call} {script : Script} {starter : TaskId}
    (h : (turnIn s.slots call.request.language).head? = some i) :
    Advance s i (.execution call (.turn script)) (.execution call (.initializing script starter))
  | post {call : Call} {d : Dispatch} {deadline : Duration} :
    Advance s i (.execution call (.posting d)) (.execution call (.reply d deadline))
  | tend {call : Call} {d : Dispatch} {m n : Wire.HostMessage} {r : Except Failure Completion} :
    Advance s i (.execution call (.cleanup d m r)) (.execution call (.cleanup d n r))
  | errand {t u : Task} (ht : t.isErrand = true) (hu : u.isErrand = true)
    (hc : u.isClosing = true → s.closed = true) : Advance s i t u
  | finish {t : Task} {o : Outcome} (ht : t.isErrand = true) : Advance s i t (.done o)

/-- It is the turn of the execution. -/
inductive AtTurn (s : State) (i : TaskId) (call : Call) : ExecutionPoint → Prop where
  | turn {script : Script} (h : (turnIn s.slots call.request.language).head? = some i) :
    AtTurn s i call (.turn script)
  | initializing {script : Script} {starter : TaskId} :
    AtTurn s i call (.initializing script starter)

namespace State

variable (s : State)

def close : State := { s with closed := true }

/-- Takes the reply to an execution. -/
def takeAnswer (i : TaskId) : State := { s with answers := s.answers.filter (·.1 ≠ i) }

def addPending (p : Pending) : State := { s with pending := s.pending ++ [p] }

/-- Marks a worker busy with an execution. -/
def mark (i : TaskId) (call : Call) (w : Serving) (timeout : Duration) : State :=
  let r := call.request
  let s := (s.setPhase r.language (.ready { w with busy := true, current := some r.id }))
  (s.removePending r.id).addPending
    { id := r.id, owner := i, language := r.language, generation := w.generation, timeout }

/-- The execution leaves its worker to the next one. -/
def unmark (i : TaskId) (call : Call) (d : Dispatch) : State :=
  (s.release call.request.language d.generation call.request.id).passTurn i call.request.language

/-- A worker is lost. If it was in service, its execution ends. -/
def lose (language : Language) (generation : Nat) (e : WorkerExit) : State :=
  match (s.slot? language).bind (·.serving? generation) with
  | none => s
  | some _ => (s.setPhase language .uninitialized).rejectPending
      (runsOn language generation) fun _ => .crash language e.code

end State

/-- Somebody starts a worker or stops to, or hears of one for the last time. -/
inductive Crewing (s : State) : State → Prop where
  | start {l : Language} (ho : s.closed = false)
    (hp : phaseIn s.slots l = some .uninitialized) :
    Crewing s ((s.addTask (.start l .fresh)).setPhase l (.initializing s.tasks.length))
  | number {i : TaskId} {l : Language} (hi : s.tasks[i]? = some (.start l .fresh)) :
    Crewing s ((s.modifySlot l fun slot =>
      { slot with generations := generationIn s.slots l + 1 }).setTask i
        (.start l (.spawning (generationIn s.slots l + 1))))
  | failStart {i : TaskId} {l : Language} {p : StartPoint} {f : Failure}
    (hi : s.tasks[i]? = some (.start l p))
    (hc : ∀ c, p.connection? = some c → liveIn s.connections c = false) :
    Crewing s ((s.setPhase l .uninitialized).setTask i (.done (.ready (.error f))))
  | enter {i : TaskId} {l : Language} {g : Nat} {c : ConnectionId} {deadline : Duration}
    (hi : s.tasks[i]? = some (.start l (.awaiting g c deadline (some true))))
    (ho : s.closed = false) :
    Crewing s ((s.modifySlot l fun slot =>
      { slot with
        phase := .ready { connection := c, generation := g }
        supervisor := slot.supervisor.reset
        memory := slot.memory.reset }).setTask i (.done (.ready (.ok ()))))
  | announce {i : TaskId} {l : Language} {g : Nat} {c : ConnectionId} {starter : Option TaskId}
    (hi : s.tasks[i]? = some (.route l g c starter)) :
    Crewing s ((s.signal starter true).setTask i (.route l g c none))
  | depart {i : TaskId} {l : Language} {g : Nat} {c : ConnectionId} {starter : Option TaskId}
    {e : WorkerExit} (hi : s.tasks[i]? = some (.route l g c starter))
    (hc : liveIn s.connections c = false) :
    Crewing s (((s.signal starter false).lose l g e).setTask i (.done .quiet))

inductive Deed (s : State) : State → Prop where
  | quiet {s' : State} (h : Quiet s s') : Deed s s'
  | add {t : Task} (ht : t.isErrand = true) (hc : t.isClosing = false) : Deed s (s.addTask t)
  | advance {i : TaskId} {t u : Task} (hi : s.tasks[i]? = some t) (h : Advance s i t u) :
    Deed s (s.setTask i u)
  | throttle {r : Throttle.State × List Effect} (h : (accounted r).Perm s.throttle.queued) :
    Deed s (s.throttled r)
  | retry (l : Language) : Deed s (s.retry l).2
  -- Turns
  | lineUp {i : TaskId} {call : Call} {code : String} {script : Script}
    (hi : s.tasks[i]? = some (.execution call (.caching code))) :
    Deed s ((s.modifySlot call.request.language
      fun slot => { slot with turn := slot.turn ++ [i] }).setTask i
        (.execution call (.turn script)))
  | giveUp {i : TaskId} {call : Call} {p : ExecutionPoint} {f : Failure}
    (hi : s.tasks[i]? = some (.execution call p)) (hp : AtTurn s i call p) :
    Deed s ((s.passTurn i call.request.language).setTask i (.done (.report (.error f))))
  | engage {i : TaskId} {call : Call} {p : ExecutionPoint} {w : Serving} {script : Script}
    {timeout : Duration} (hi : s.tasks[i]? = some (.execution call p)) (hp : AtTurn s i call p)
    (hw : phaseIn s.slots call.request.language = some (.ready w)) :
    Deed s ((s.mark i call w timeout).setTask i
      (.execution call (.posting ⟨script, w.connection, w.generation, timeout⟩)))
  | undelivered {i : TaskId} {call : Call} {d : Dispatch} {o : Outcome}
    (hi : s.tasks[i]? = some (.execution call (.posting d))) (ho : o.isFailed = true) :
    Deed s ((s.unmark i call d).setTask i (.done o))
  | collect {i : TaskId} {call : Call} {d : Dispatch} {deadline : Duration}
    (hi : s.tasks[i]? = some (.execution call (.reply d deadline)))
    (hp : s.pending.any (State.isOwner i) = false) :
    Deed s ((s.takeAnswer i).setTask i
      (.execution call (.cleanup d .gc ((s.answers.lookup i).getD (.error .shutdown)))))
  | expire {i : TaskId} {call : Call} {d : Dispatch} {deadline : Duration} {f : Failure}
    (hi : s.tasks[i]? = some (.execution call (.reply d deadline)))
    (hp : s.pending.any (State.isOwner i) = true) :
    Deed s (((s.removePending call.request.id).emit call.request.language (some call.request.id)
      (.error f.message)).setTask i (.execution call (.cleanup d .gc (.error f))))
  | conclude {i : TaskId} {call : Call} {d : Dispatch} {m : Wire.HostMessage}
    {result : Except Failure Completion} {r : Except Failure Wire.Report}
    (hi : s.tasks[i]? = some (.execution call (.cleanup d m result)))
    (hr : r.map completionOf = result) :
    Deed s ((s.unmark i call d).setTask i (.done (.report r)))
  -- What workers tell
  | console {i : TaskId} {l : Language} {g : Nat} {c : ConnectionId} {starter : Option TaskId}
    {id : Uuid} {p : Pending} {entry : Wire.ConsoleEntry}
    (hi : s.tasks[i]? = some (.route l g c starter)) (hp : s.findPending id = some p) :
    Deed s ((s.modifyPending id fun p => { p with console := p.console ++ [entry] }).emit l
      (some id) (.console entry))
  | debug {i : TaskId} {l : Language} {g : Nat} {c : ConnectionId} {starter : Option TaskId}
    {id : Uuid} {p : Pending} {entry : Wire.DebugEntry}
    (hi : s.tasks[i]? = some (.route l g c starter)) (hp : s.findPending id = some p) :
    Deed s ((s.modifyPending id fun p => { p with debug := p.debug ++ [entry] }).emit l
      (some id) (.debug entry))
  | answer {i : TaskId} {l : Language} {g : Nat} {c : ConnectionId} {starter : Option TaskId}
    {id : Uuid} {p : Pending} {kind : EventKind} {result : Except Failure Completion}
    (hi : s.tasks[i]? = some (.route l g c starter)) (hp : s.findPending id = some p)
    (hk : p.EndsWith kind result) : Deed s (s.answer p kind result l)
  -- Workers
  | crew {s' : State} (h : Crewing s s') : Deed s s'
  | restart (l : Language) : Deed s (s.scheduleRestart l)
  | recycle (l : Language) (g : Nat) : Deed s (s.recycle l g)
  -- The end
  | close : Deed s s.close
  | retire (l : Language) (ho : s.closed = true) : Deed s (s.retire l)
  | rejectAll (ho : s.closed = true) :
    Deed s (s.rejectPending (fun _ => true) fun _ => .shutdown)

/-- Some deeds, one after another. -/
abbrev Deeds : State → State → Prop := Relation.ReflTransGen Deed

end Scratchpad.Engine
