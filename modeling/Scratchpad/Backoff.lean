import Scratchpad.Duration

/-! How often and after what delay a failed worker is started again. -/
namespace Scratchpad

structure RestartPolicy where
  /-- Failures in a row that are tolerated. -/
  maxAttempts : Nat := 3
  baseDelay : Duration := .ofSeconds 1
  maxDelay : Duration := .ofSeconds 30
deriving DecidableEq, Repr

namespace RestartPolicy

/-- Delays stop doubling here. -/
def maxDoublings : Nat := 31

/-- The delay doubles with each attempt, up to a bound. -/
def delayFor (p : RestartPolicy) (attempt : Nat) : Duration :=
  let delay := p.baseDelay.times? (Nat.pow 2 (min (attempt - 1) maxDoublings))
  (delay.getD p.maxDelay).min p.maxDelay

end RestartPolicy

inductive RestartDecision where
  | retry (attempt : Nat) (delay : Duration)
  | giveUp (attempts : Nat)
deriving DecidableEq, Repr

/-- Counts the failures since the last success. -/
structure Supervisor where
  policy : RestartPolicy
  failures : Nat := 0
deriving DecidableEq, Repr

namespace Supervisor

/-- The count is a 32-bit word. -/
def failureLimit : Nat := Nat.pow 2 32

def recordFailure (s : Supervisor) : Supervisor × RestartDecision :=
  let attempt := (s.failures + 1) % failureLimit
  let s := { s with failures := attempt }
  if s.policy.maxAttempts < attempt then (s, .giveUp (attempt - 1))
  else (s, .retry attempt (s.policy.delayFor attempt))

def reset (s : Supervisor) : Supervisor := { s with failures := 0 }

end Supervisor

end Scratchpad
