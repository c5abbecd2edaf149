import Scratchpad.Proofs.Throttle.Queue
import Scratchpad.Throttle.Trial

/-!
A throttle and those who use it: callers, running jobs, timers. An act is one section of the
throttle or something that happens outside of it, and acts come in any order.
-/
namespace Scratchpad.Throttle

/-! ### Effects by kind -/

@[simp] def Effect.starts? : Effect → Option Job
  | .start job => some job
  | _ => none

@[simp] def Effect.refuses? (why : Rejection) : Effect → Option Job
  | .reject job reason => if reason = why then some job else none
  | _ => none

@[simp] def Effect.loses? : Effect → Option Job
  | .lose job => some job
  | _ => none

@[simp] def Effect.wakes? : Effect → Option Nat
  | .wake generation _ => some generation
  | _ => none

/-- What a caller hears at once. The caller of a lost job hears nothing. -/
@[simp] def Effect.reply? : Effect → Option (Job × Outcome)
  | .reject job why => some (job, .refused why)
  | _ => none

/-- Goes off when the delay after its job was handed in is over, or later. -/
structure Timer where
  generation : Nat
  due : Duration
deriving DecidableEq, Repr

structure Traffic where
  throttle : State
  now : Duration := .zero
  /-- How many jobs there were; the next one gets this ticket. -/
  tickets : Nat := 0
  /-- Their callers wait for the lock. -/
  arriving : List Job := []
  active : List Job := []
  /-- Jobs that have come to an end of which the throttle does not know yet. -/
  ended : List Job := []
  timers : List Timer := []
  -- What happened so far, first things first
  entered : List Job := []
  begun : List Job := []
  finished : List Job := []
  superseded : List Job := []
  /-- Superseded jobs, each with the one that took its place. -/
  successors : List (Job × Job) := []
  rejected : List Job := []
  lost : List Job := []
  replies : List (Job × Outcome) := []

inductive Act where
  /-- A job is handed in; its caller goes to wait for the lock. -/
  | call (id : String) (priority : Priority)
  /-- The caller gets the lock. -/
  | enter (job : Job)
  /-- A job comes to its end, or panics. -/
  | stop (job : Job) (panics : Bool)
  /-- The throttle learns of the end of a job. -/
  | free (job : Job) (elapsed : Duration)
  | fire (timer : Timer)
  | shutdown
  | pass (d : Duration)

namespace Traffic

def start (settings : ThrottleSettings) : Traffic where
  throttle := { settings }

variable (w : Traffic)

/-- Takes on the outcome of a section. -/
def take (r : State × List Effect) : Traffic :=
  { w with
    throttle := r.1
    active := w.active ++ r.2.filterMap Effect.starts?
    begun := w.begun ++ r.2.filterMap Effect.starts?
    superseded := w.superseded ++ r.2.filterMap (Effect.refuses? .superseded)
    rejected := w.rejected ++ r.2.filterMap (Effect.refuses? .shutdown)
    lost := w.lost ++ r.2.filterMap Effect.loses?
    replies := w.replies ++ r.2.filterMap Effect.reply? }

/-- Takes on the outcome of the section that lets a job in. -/
def letIn (job : Job) (r : State × List Effect) : Traffic :=
  let superseded := r.2.filterMap (Effect.refuses? .superseded)
  let woken := r.2.filterMap Effect.wakes?
  { w.take r with
    successors := w.successors ++ superseded.map (·, job)
    timers := w.timers ++ woken.map fun g => ⟨g, job.since.add w.throttle.delay⟩ }

/-- How the caller of a job learns of its end. A panic looks like a shutdown. -/
def ending (panics : Bool) : Outcome := if panics then .refused .shutdown else .done

/-- An act that is not possible changes nothing. -/
def act : Act → Traffic
  | .call id priority =>
    { w with
      tickets := w.tickets + 1
      arriving := w.arriving ++ [⟨w.tickets, id, priority, w.now⟩] }
  | .enter job =>
    if job ∈ w.arriving then
      ({ w with arriving := w.arriving.erase job, entered := w.entered ++ [job] } : Traffic).letIn
        job (enqueue w.now w.throttle job)
    else w
  | .stop job panics =>
    if job ∈ w.active then
      { w with
        active := w.active.erase job
        ended := w.ended ++ [job]
        replies := w.replies ++ [(job, ending panics)] }
    else w
  | .free job elapsed =>
    if job ∈ w.ended then
      ({ w with ended := w.ended.erase job, finished := w.finished ++ [job] } : Traffic).take
        (finish w.now w.throttle elapsed)
    else w
  | .fire timer =>
    if timer ∈ w.timers ∧ timer.due.nanos ≤ w.now.nanos then
      ({ w with timers := w.timers.erase timer } : Traffic).take
        (wake w.now w.throttle timer.generation)
    else w
  | .shutdown => w.take (Throttle.shutdown w.throttle)
  | .pass d => { w with now := w.now.add d }

def run (acts : List Act) : Traffic := acts.foldl act w

/-- The job that an act loses: a new one of which nobody can say when it may start. -/
def loses : Act → List Job
  | .enter job =>
    if job ∈ w.arriving ∧ w.throttle.closed = false ∧ job.priority = .normal ∧
        w.throttle.readyAt? job = none then [job]
    else []
  | _ => []

end Traffic

/-! ### The pump -/

/-- What the pump can do. -/
inductive Pumped (now : Duration) (s : State) : State × List Effect → Prop
  /-- Something runs, or nothing may start. -/
  | idle (h : s.running.isSome = true ∨ s.closed = true ∨
      s.high = [] ∧ ∀ x, s.normal = some x → now.nanos < x.readyAt.nanos) : Pumped now s (s, [])
  | high {job : Job} {high : List Job} (hr : s.running = none) (hc : s.closed = false)
    (hh : s.high = job :: high) :
    Pumped now s ({ s with high, running := some job, executed := s.executed + 1 }, [.start job])
  | normal {x : Waiting} (hr : s.running = none) (hc : s.closed = false) (hh : s.high = [])
    (hn : s.normal = some x) (ht : x.readyAt.nanos ≤ now.nanos) :
    Pumped now s ({ s with normal := none, running := some x.job, executed := s.executed + 1 },
      [.start x.job])

theorem pumped (now : Duration) (s : State) : Pumped now s (pump now s) := by
  unfold pump
  split
  · rename_i h
    refine .idle ?_
    rcases Bool.or_eq_true_iff.mp h with h | h
    · exact .inl h
    · exact .inr (.inl h)
  · rename_i h
    obtain ⟨hr, hc⟩ : s.running = none ∧ s.closed = false := by simpa using h
    cases hh : s.high with
    | cons job high =>
      have hp : Pumped now s _ := .high hr hc hh
      simpa [next?, hh] using hp
    | nil =>
      cases hn : s.normal with
      | none =>
        have hi : Pumped now s (s, []) := .idle (.inr (.inr ⟨hh, by simp [hn]⟩))
        simpa [next?, hh, hn] using hi
      | some x =>
        by_cases ht : x.readyAt.nanos ≤ now.nanos
        · simpa [next?, hh, hn, ht] using Pumped.normal hr hc hh hn ht
        · have hi : Pumped now s (s, []) :=
            .idle (.inr (.inr ⟨hh, by simpa [hn] using Nat.lt_of_not_le ht⟩))
          simpa [next?, hh, hn, ht] using hi

namespace Traffic

variable {w : Traffic}

/-- What an act comes to. -/
inductive Acted (w : Traffic) : Act → Traffic → Prop
  /-- It is not possible. -/
  | refused {a : Act} : Acted w a w
  | call {id : String} {priority : Priority} : Acted w (.call id priority)
      { w with
        tickets := w.tickets + 1
        arriving := w.arriving ++ [⟨w.tickets, id, priority, w.now⟩] }
  | enter {job : Job} (h : job ∈ w.arriving) : Acted w (.enter job)
      (({ w with arriving := w.arriving.erase job, entered := w.entered ++ [job] } : Traffic).letIn
        job (enqueue w.now w.throttle job))
  | stop {job : Job} {panics : Bool} (h : job ∈ w.active) : Acted w (.stop job panics)
      { w with
        active := w.active.erase job
        ended := w.ended ++ [job]
        replies := w.replies ++ [(job, ending panics)] }
  | free {job : Job} {elapsed : Duration} (h : job ∈ w.ended) : Acted w (.free job elapsed)
      (({ w with ended := w.ended.erase job, finished := w.finished ++ [job] } : Traffic).take
        (finish w.now w.throttle elapsed))
  | fire {timer : Timer} (h : timer ∈ w.timers) (hdue : timer.due.nanos ≤ w.now.nanos) :
      Acted w (.fire timer) (({ w with timers := w.timers.erase timer } : Traffic).take
        (wake w.now w.throttle timer.generation))
  | shutdown : Acted w .shutdown (w.take (Throttle.shutdown w.throttle))
  | pass {d : Duration} : Acted w (.pass d) { w with now := w.now.add d }

theorem acted (w : Traffic) (a : Act) : ∃ w', w.act a = w' ∧ Acted w a w' := by
  refine ⟨_, rfl, ?_⟩
  cases a with
  | call id priority => exact .call
  | shutdown => exact .shutdown
  | pass d => exact .pass
  | enter job =>
    simp only [act]
    split
    · exact .enter ‹_›
    · exact .refused
  | stop job panics =>
    simp only [act]
    split
    · exact .stop ‹_›
    · exact .refused
  | free job elapsed =>
    simp only [act]
    split
    · exact .free ‹_›
    · exact .refused
  | fire timer =>
    simp only [act]
    split
    · rename_i h
      exact .fire h.1 h.2
    · exact .refused

/-- What holds and is kept by every act holds for good. -/
theorem run_of_act {P : Traffic → Prop} (h : ∀ w a, P w → P (w.act a)) (hw : P w)
    (acts : List Act) : P (w.run acts) := by
  induction acts generalizing w with
  | nil => exact hw
  | cons a acts ih => exact ih (h w a hw)

end Traffic

end Scratchpad.Throttle
