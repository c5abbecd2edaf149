import Scratchpad.Engine.Step

/-! Steps of an engine by name, and the runs that consist of them. -/
namespace Scratchpad.Engine

open Wire (HostMessage WorkerMessage)

/-- What takes an engine from one state to the next. -/
inductive Move where
  | resume (i : TaskId)
  | execute (request : Wire.Request)
  | run (request : Wire.Request) (priority : Throttle.Priority)
  | warmUp (language : Language)
  | cancel (id : Uuid)
  | retry (language : Language)
  | shutdown (order : Language.Order)
  | clearCache
  | take (c : ConnectionId)
  | tell (c : ConnectionId) (m : WorkerMessage)
  | leave (c : ConnectionId) (e : WorkerExit)
  | vanish (c : ConnectionId)
  | pass (d : Duration)

/-- The number of the execution that somebody wants. -/
def Move.asks? : Move → Option Uuid
  | .execute request | .run request _ => some request.id
  | _ => none

namespace State

variable (s : State)

def allows : Move → Bool
  | .resume i => s.canResume i
  | .tell c _ | .leave c _ => !s.isGone c
  | _ => true

def move : Move → State
  | .resume i => s.resume i
  | .execute request => s.execute request
  | .run request priority => s.run request priority
  | .warmUp language => s.warmUp language
  | .cancel id => s.cancel id
  | .retry language => (s.retry language).2
  | .shutdown order => s.shutdownIn order
  | .clearCache => s.clearCache
  | .take c => s.modifyConnection c fun c => { c with inbox := c.inbox.drop 1 }
  | .tell c m => s.modifyConnection c (·.tell m)
  | .leave c e => s.modifyConnection c (·.leave e)
  | .vanish c => s.modifyConnection c Connection.vanish
  | .pass d => { s with now := s.now.add d }

end State

/-- The moves lead from the first state to the second one. -/
inductive Run : State → List Move → State → Prop where
  | stay (s : State) : Run s [] s
  | move {s s' : State} {m : Move} {ms : List Move} (h : s.allows m = true)
      (hr : Run (s.move m) ms s') : Run s (m :: ms) s'

/-- Whether the moves can be taken one after another. -/
def State.allowsAll : State → List Move → Bool
  | _, [] => true
  | s, m :: ms => s.allows m && (s.move m).allowsAll ms

def State.moves (s : State) (ms : List Move) : State := ms.foldl State.move s

/-- Runs can be computed. -/
theorem run_iff {s t : State} {ms : List Move} :
    Run s ms t ↔ s.allowsAll ms = true ∧ s.moves ms = t := by
  constructor
  · intro h
    induction h with
    | stay s => exact ⟨rfl, rfl⟩
    | move h hr ih => exact ⟨by simp [State.allowsAll, h, ih.1], ih.2⟩
  · rintro ⟨h, rfl⟩
    induction ms generalizing s with
    | nil => exact .stay s
    | cons m ms ih =>
      obtain ⟨ha, hms⟩ := Bool.and_eq_true_iff.mp h
      exact .move ha (ih hms)

theorem moves_append (s : State) (ms ns : List Move) :
    s.moves (ms ++ ns) = (s.moves ms).moves ns := List.foldl_append

/-- The numbers of the executions that were wanted in a run. -/
def asked (ms : List Move) : List Uuid := ms.filterMap Move.asks?

/-- A worker of a language that was got from the spawner, and the number that it was given. -/
structure Hire where
  language : Language
  generation : Nat
  connection : ConnectionId
deriving DecidableEq, Repr

/-- The workers that a move gets. Transpilers are none. -/
def State.hires (s : State) : Move → List Hire
  | .resume i =>
    match s.tasks[i]? with
    | some (.start l (.spawning g)) =>
      match s.slot? l with
      | some slot =>
        match (s.spawn l slot.settings.workerCommand).1 with
        | .ok c => [⟨l, g, c⟩]
        | .error _ => []
      | none => []
    | _ => []
  | _ => []

/-- The workers that were got in a run, first come first. -/
def hired (s : State) : List Move → List Hire
  | [] => []
  | m :: ms => s.hires m ++ hired (s.move m) ms

namespace Run

variable {s t u : State} {m : Move} {ms ns : List Move}

theorem single (h : s.allows m = true) : Run s [m] (s.move m) := .move h (.stay _)

theorem append (h : Run s ms t) (h' : Run t ns u) : Run s (ms ++ ns) u := by
  induction h with
  | stay => exact h'
  | move ha _ ih => exact .move ha (ih h')

theorem split (h : Run s (ms ++ ns) u) : Run s ms (s.moves ms) ∧ Run (s.moves ms) ns u := by
  induction ms generalizing s with
  | nil => exact ⟨.stay s, h⟩
  | cons m ms ih =>
    cases h with
    | move ha hr => exact ⟨.move ha (ih hr).1, (ih hr).2⟩

theorem moves_eq (h : Run s ms t) : s.moves ms = t := (run_iff.mp h).2

theorem snoc (h : Run s ms t) (ha : t.allows m = true) : Run s (ms ++ [m]) (t.move m) :=
  h.append (.single ha)

/-- What holds after a run and is kept by the next move holds as long as the run goes on. -/
theorem extend {P : List Move → State → Prop} (hr : Run t ns u) (hs : Run s ms t) (hp : P ms t)
    (hm : ∀ {ns u m}, Run s ns u → u.allows m = true → P ns u → P (ns ++ [m]) (u.move m)) :
    P (ms ++ ns) u := by
  induction hr generalizing ms with
  | stay => simpa using hp
  | move ha _ ih => simpa using ih (hs.snoc ha) (hm hs ha hp)

theorem forward {P : List Move → State → Prop} (hr : Run s ms t) (h0 : P [] s)
    (hm : ∀ {ns u m}, Run s ns u → u.allows m = true → P ns u → P (ns ++ [m]) (u.move m)) :
    P ms t := hr.extend (.stay s) h0 hm

end Run

end Scratchpad.Engine
