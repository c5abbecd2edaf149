import Scratchpad.Failure
import Scratchpad.Throttle.Delay

/-!
Runs one job at a time. A job of normal priority waits for a while, and a newer one takes its place;
jobs of high priority wait for nothing but the running job. Each function is one locked section: it
gives the new state and what is to be done.
-/
namespace Scratchpad.Throttle

inductive Priority where
  | normal
  | high
deriving DecidableEq, Repr

/-- A job that was handed in. -/
structure Job where
  /-- Tells the jobs apart. -/
  ticket : Nat
  id : String
  priority : Priority
  /-- When it was handed in. -/
  since : Duration
deriving DecidableEq, Repr

/-- Why a job does not run. -/
inductive Rejection where
  | superseded
  | shutdown
deriving DecidableEq, Repr

def Rejection.message : Rejection → String
  | .superseded => "Superseded by a newer request"
  | .shutdown => "Throttler is shut down"

/-- What becomes of the run that a job stands for. -/
def Rejection.toFailure : Rejection → Failure
  | .superseded => .superseded
  | .shutdown => .shutdown

/-- The queued job of normal priority. -/
structure Waiting where
  generation : Nat
  readyAt : Duration
  job : Job
deriving DecidableEq, Repr

structure State where
  settings : ThrottleSettings
  running : Option Job := none
  normal : Option Waiting := none
  /-- Queued jobs of high priority, first come first. -/
  high : List Job := []
  /-- How long the latest runs took, last one last. -/
  durations : List Duration := []
  generation : Nat := 0
  closed : Bool := false
  scheduled : Nat := 0
  executed : Nat := 0
  superseded : Nat := 0
  highPriority : Nat := 0
deriving Repr

inductive Effect where
  | start (job : Job)
  | reject (job : Job) (why : Rejection)
  /-- Nobody can say when the job may start. Whoever handed it in breaks on it and hears nothing. -/
  | lose (job : Job)
  /-- The queued job of this generation is to be looked at again. -/
  | wake (generation : Nat) (at_ : Duration)
deriving DecidableEq, Repr

variable (now : Duration) (s : State)

/-- How long a job of normal priority would wait. -/
def State.delay? : Option Duration := s.settings.delay? s.durations

/-- The delay as it is shown. Where there is none, the greatest span stands for it. -/
def State.delay : Duration := s.delay?.getD .greatest

/-- When a job of normal priority may start. -/
def State.readyAt? (job : Job) : Option Duration := do job.since.later? (← s.delay?)

/-- The next job that may start, and the state without it. -/
def next? : Option (Job × State) :=
  match s.high with
  | job :: high => some (job, { s with high })
  | [] =>
    match s.normal with
    | some w => if w.readyAt.nanos ≤ now.nanos then some (w.job, { s with normal := none }) else none
    | none => none

/-- Starts the next job if none is running. -/
def pump : State × List Effect :=
  if s.running.isSome || s.closed then (s, [])
  else
    match next? now s with
    | some (job, s) =>
      ({ s with running := some job, executed := s.executed + 1 }, [.start job])
    | none => (s, [])

/-- Adds effects in front. -/
def after (effects : List Effect) (r : State × List Effect) : State × List Effect :=
  (r.1, effects ++ r.2)

/-- The waiting job makes room before the delay of the new one is computed, and whatever becomes of
that. -/
def enqueueNormal (job : Job) : State × List Effect :=
  let rejected := s.normal.toList.map fun w => Effect.reject w.job .superseded
  let s := { s with superseded := s.superseded + rejected.length, normal := none }
  match s.delay? with
  | none => (s, rejected ++ [.lose job])
  | some delay =>
    let generation := s.generation + 1
    let s := { s with generation }
    match job.since.later? delay with
    | none => (s, rejected ++ [.lose job])
    | some readyAt =>
      after (rejected ++ [.wake generation (now.add delay)])
        (pump now { s with normal := some ⟨generation, readyAt, job⟩ })

/-- A job is handed in. -/
def enqueue (job : Job) : State × List Effect :=
  if s.closed then (s, [.reject job .shutdown])
  else
    let s := { s with scheduled := s.scheduled + 1 }
    match job.priority with
    | .high => pump now { s with highPriority := s.highPriority + 1, high := s.high ++ [job] }
    | .normal => enqueueNormal now s job

/-- The wait of the queued job of a generation is over. -/
def wake (generation : Nat) : State × List Effect :=
  match s.normal with
  | some w => if w.generation = generation then pump now s else (s, [])
  | none => (s, [])

/-- The running job has ended. -/
def finish (elapsed : Duration) : State × List Effect :=
  let durations := s.durations ++ [elapsed]
  let window := max s.settings.window 1
  pump now { s with running := none, durations := durations.drop (durations.length - window) }

/-- Refuses all queued jobs, and all later ones; the running one goes on. -/
def shutdown : State × List Effect :=
  let queued := s.normal.toList.map (·.job) ++ s.high
  ({ s with closed := true, normal := none, high := [] },
    queued.map fun job => .reject job .shutdown)

/-- How many jobs are queued or running. -/
def State.load : Nat := s.high.length + s.normal.toList.length + s.running.toList.length

theorem load_pump : (pump now s).1.load = s.load := by
  unfold pump next?
  split
  · rfl
  · rename_i h
    rcases hr : s.running with _ | job
    · rcases hh : s.high with _ | ⟨job, high⟩
      · rcases hn : s.normal with _ | w
        · simp [State.load, hr, hh, hn]
        · by_cases hw : w.readyAt.nanos ≤ now.nanos <;> simp [State.load, hr, hh, hn, hw]
      · simp only [State.load, hr, hh, List.length_cons, Option.toList_some, Option.toList_none,
          List.length_nil]
        omega
    · simp [hr] at h

theorem load_finish_lt (elapsed : Duration) {job : Job} (h : s.running = some job) :
    (finish now s elapsed).1.load < s.load := by
  simp only [finish, load_pump]
  simp [State.load, h]

end Scratchpad.Throttle
