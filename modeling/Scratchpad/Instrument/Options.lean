/-! What instrumentation inserts and how much of it. -/
namespace Scratchpad.Instrument

structure Options where
  /-- The function that inserted code reports values to. -/
  debugFunction : String := "__livepad_debug"
  /-- Rounds after which a guarded loop is stopped. -/
  maxIterations : Nat := 10000
  /-- Rounds between two questions whether the run was cancelled. -/
  checkInterval : Nat := 100
  loopProtection : Bool := true
  magicComments : Bool := true
  wrapExpressions : Bool := true
deriving DecidableEq, Repr

namespace Options

variable (o : Options) (line : Nat)

/-- Opens a call that reports the expression behind it. -/
def debugOpen : String := s!"{o.debugFunction}({line}, ("

/-- A call that reports `args`. -/
def debugCall (args : String) : String := s!"{o.debugFunction}({line}, {args})"

/-- The head of a call whose arguments follow, or of one without arguments. -/
def debugHead (hasArguments : Bool) : String :=
  if hasArguments then s!"{o.debugFunction}({line}, " else s!"{o.debugFunction}({line}"

end Options

/-- Closes what `debugOpen` opens. -/
def debugClose : String := "))"

end Scratchpad.Instrument
