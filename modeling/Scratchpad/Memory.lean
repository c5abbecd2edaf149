/-! Decides after each run how thoroughly the memory of a worker is to be cleaned up. -/
namespace Scratchpad.Memory

/-- What a worker says about its memory. -/
structure Report where
  heapUsed : Nat := 0
  heapTotal : Nat := 0
  objectCount : Nat := 0
deriving DecidableEq, Repr

def megabyte : Nat := 1024 * 1024

/-- Limits, and how often to clean up anyway. -/
structure Settings where
  softLimitBytes : Nat := 256 * megabyte
  hardLimitBytes : Nat := 512 * megabyte
  criticalLimitBytes : Nat := 1024 * megabyte
  objectSoftLimit : Nat := 250000
  objectHardLimit : Nat := 1000000
  /-- A light cleanup after every so many runs; none if zero. -/
  lightEvery : Nat := 10
  fullEvery : Nat := 50
  /-- Names that a full cleanup keeps. -/
  preservedNames : List String :=
    ["__builtins__", "__name__", "__doc__", "__package__", "__loader__", "__spec__"]
deriving DecidableEq, Repr

inductive Cleanup where
  | none
  /-- Collect garbage. -/
  | light
  /-- Forget all names but the preserved ones. -/
  | full
  /-- Restart the worker. -/
  | critical
deriving DecidableEq, Repr

def Cleanup.name : Cleanup → String
  | .none => "none"
  | .light => "light"
  | .full => "full"
  | .critical => "critical"

structure Stats where
  heapUsed : Nat := 0
  heapTotal : Nat := 0
  executionsSinceCleanup : Nat := 0
  objectCount : Nat := 0
  totalExecutions : Nat := 0
  lastCleanup : Option Cleanup := none
deriving DecidableEq, Repr

structure Manager where
  settings : Settings
  stats : Stats := {}
deriving DecidableEq, Repr

namespace Manager

variable (m : Manager)

def observe (r : Report) : Manager :=
  { m with stats := { m.stats with
      heapUsed := r.heapUsed
      heapTotal := max r.heapTotal r.heapUsed
      objectCount := r.objectCount } }

/-- Whether a count has come round. -/
def due (every count : Nat) : Bool := 0 < every && count % every = 0

/-- Limits come before turns, and what is more thorough before what is less. -/
def decide : Cleanup :=
  let c := m.settings
  let s := m.stats
  if c.criticalLimitBytes ≤ s.heapUsed then .critical
  else if c.hardLimitBytes ≤ s.heapUsed || c.objectHardLimit ≤ s.objectCount then .full
  else if c.softLimitBytes ≤ s.heapUsed || c.objectSoftLimit ≤ s.objectCount then .light
  else if due c.fullEvery s.totalExecutions then .full
  else if due c.lightEvery s.totalExecutions then .light
  else .none

/-- Counts a run. -/
def count : Manager :=
  { m with stats := { m.stats with
      totalExecutions := m.stats.totalExecutions + 1
      executionsSinceCleanup := m.stats.executionsSinceCleanup + 1 } }

/-- Counts a run and tells the cleanup that it calls for. -/
def afterExecution : Manager × Cleanup :=
  let m := m.count
  match m.decide with
  | .none => (m, .none)
  | level =>
    ({ m with stats := { m.stats with
        executionsSinceCleanup := 0
        lastCleanup := some level } }, level)

/-- What the handler of critical levels is told, if the level is critical. -/
def escalation (level : Cleanup) : Option Stats :=
  if level = .critical then some m.stats else none

/-- Forgets what was observed: the worker is a new one. -/
def reset : Manager :=
  { m with stats := { m.stats with
      heapUsed := 0
      heapTotal := 0
      objectCount := 0
      executionsSinceCleanup := 0 } }

end Manager

end Scratchpad.Memory
