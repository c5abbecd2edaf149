import Scratchpad.Throttle.Basic

/-! Jobs that take no time, on a clock that moves only when somebody waits. -/
namespace Scratchpad.Throttle

/-- What a job does when it runs. -/
inductive Behavior where
  | instant
  /-- Runs until it is released. -/
  | gate
  /-- Breaks, so that nobody hears of it again. -/
  | panic
deriving DecidableEq, Repr

inductive Outcome where
  | done
  | refused (why : Rejection)
deriving DecidableEq, Repr

structure Trial where
  state : State
  now : Duration := .zero
  /-- What the jobs do, by ticket. -/
  behaviors : List Behavior := []
  /-- Tickets of released gates. -/
  released : List Nat := []
  ids : List String := []
  timers : List (Duration × Nat) := []
  /-- Jobs in the order in which they started. -/
  started : List String := []
  outcomes : List (String × Outcome) := []

namespace Trial

/-- A job that ends at once is charged with this. -/
def instantly : Duration := ⟨1⟩

/-- Notes how a job ended; a later job of the same id overrides it. -/
def note (id : String) (o : Outcome) (t : Trial) : Trial :=
  { t with outcomes := t.outcomes.filter (·.1 ≠ id) ++ [(id, o)] }

def perform (t : Trial) : Effect → Trial
  | .start job => { t with started := t.started ++ [job.id] }
  | .reject job why => t.note job.id (.refused why)
  | .lose _ => t
  | .wake generation at_ => { t with timers := t.timers ++ [(at_, generation)] }

/-- Takes on a new state and does what is to be done. -/
def advance (t : Trial) (r : State × List Effect) : Trial :=
  r.2.foldl perform { t with state := r.1 }

/-- How a job ends that can end now. -/
def ending? (t : Trial) (job : Job) : Option Outcome :=
  match t.behaviors[job.ticket]? with
  | some .gate => if t.released.contains job.ticket then some .done else none
  | some .panic => some (.refused .shutdown)
  | _ => some .done

theorem state_perform (t : Trial) (e : Effect) : (t.perform e).state = t.state := by
  cases e <;> rfl

theorem state_advance (t : Trial) (r : State × List Effect) : (t.advance r).state = r.1 := by
  have h (es : List Effect) (u : Trial) : (es.foldl perform u).state = u.state := by
    induction es generalizing u with
    | nil => rfl
    | cons e es ih => simp [ih, state_perform]
  exact h r.2 _

/-- Lets jobs run until none can end. -/
def settle (t : Trial) : Trial :=
  match _ : t.state.running with
  | none => t
  | some job =>
    match t.ending? job with
    | none => t
    | some o => settle ((t.note job.id o).advance (finish t.now t.state instantly))
termination_by t.state.load
decreasing_by
  rw [state_advance]
  exact load_finish_lt _ _ _ ‹_›

def schedule (id : String) (priority : Priority) (behavior : Behavior) (t : Trial) : Trial :=
  let job : Job := ⟨t.ids.length, id, priority, t.now⟩
  let t := { t with ids := t.ids ++ [id], behaviors := t.behaviors ++ [behavior] }
  (t.advance (enqueue t.now t.state job)).settle

/-- The latest gate of an id. -/
def gate? (id : String) (t : Trial) : Option Nat :=
  (List.range t.ids.length).reverse.find? fun ticket =>
    t.ids[ticket]? = some id && t.behaviors[ticket]? = some .gate

def release (id : String) (t : Trial) : Trial :=
  match t.gate? id with
  | some ticket => { t with released := ticket :: t.released }.settle
  | none => t

def shutdown (t : Trial) : Trial := t.advance (Throttle.shutdown t.state)

/-- Timers go off in order until a job has started. -/
def waitThrough (id : String) : List (Duration × Nat) → Trial → Trial
  | [], t => t
  | (at_, generation) :: timers, t =>
    if t.started.contains id then { t with timers := (at_, generation) :: timers }
    else
      let t := { t with now := t.now.max at_, timers }
      waitThrough id timers (t.advance (wake t.now t.state generation)).settle

def wait (id : String) (t : Trial) : Trial :=
  waitThrough id (t.timers.mergeSort fun a b => a.1.nanos ≤ b.1.nanos) t

end Trial

end Scratchpad.Throttle
