import Scratchpad.Duration
import Scratchpad.Language
import Scratchpad.Text.Diagnostic

/-! Why a run fails, and how a worker goes away. -/
namespace Scratchpad

/-- Who gave up on a slow run. -/
inductive TimeoutKind where
  /-- The worker, at the limit that it was given. -/
  | soft
  /-- The host, when the worker kept silent. -/
  | hard
deriving DecidableEq, Repr

def TimeoutKind.name : TimeoutKind → String
  | .soft => "soft"
  | .hard => "hard"

inductive Failure where
  | initialization (language : Language) (reason : String)
  | transpile (fault : Text.Diagnostic)
  /-- The code threw. -/
  | execution (name message : String) (stack : Option String)
  | timeout (kind : TimeoutKind) (after : Duration)
  | cancelled
  | crash (language : Language) (code : Option Int)
  | unavailable (language : Language)
  | unsupportedLanguage (language : Language)
  | protocol (reason : String)
  | superseded
  | shutdown
deriving DecidableEq, Repr

/-- An optional value as it stands in messages. -/
def optionText : Option Int → String
  | some n => s!"Some({n})"
  | none => "None"

namespace Failure

def message : Failure → String
  | .initialization language reason => s!"{language.name} worker failed to initialize: {reason}"
  | .transpile fault => s!"Transpile error: {fault.render}"
  | .execution name message _ => s!"{name}: {message}"
  | .timeout kind after =>
    s!"Execution timed out after {after.renderShort} ({kind.name} timeout)"
  | .cancelled => "Execution cancelled"
  | .crash language code => s!"{language.name} worker crashed (exit code {optionText code})"
  | .unavailable language => s!"{language.name} worker is unavailable until retried"
  | .unsupportedLanguage language => s!"No worker configured for {language.name}"
  | .protocol reason => s!"Protocol error: {reason}"
  | .superseded => "Superseded by a newer request"
  | .shutdown => "Engine is shutting down"

def isTimeout : Failure → Bool
  | .timeout _ _ => true
  | _ => false

end Failure

/-- What a worker reports of an error in the code. -/
structure ErrorReport where
  name : String
  message : String
  stack : Option String := none
deriving DecidableEq, Repr

/-- A decimal number of 32 bits; a plus sign may stand in front. -/
def halfWord? (cs : List Char) : Option Nat :=
  let ds := if cs.head? = some '+' then cs.drop 1 else cs
  let n := ds.foldl (fun n c => n * 10 + (c.toNat - '0'.toNat)) 0
  if !ds.isEmpty && ds.all Char.isDigit && n < Nat.pow 2 32 then some n else none

/-- Splits at every separator. -/
def splitAll (separator : Char) : List Char → List (List Char)
  | [] => [[]]
  | c :: cs =>
    if c = separator then [] :: splitAll separator cs
    else
      match splitAll separator cs with
      | part :: parts => (c :: part) :: parts
      | [] => [[c]]

def trim (cs : List Char) : List Char :=
  ((cs.dropWhile Text.isWhiteSpace).reverse.dropWhile Text.isWhiteSpace).reverse

/-- A number at the end of a place in a stack, such as `3` or `7)`. -/
def placeNumber? (part : List Char) : Option Nat :=
  halfWord? (trim (part.reverse.dropWhile (· = ')')).reverse)

/-- The line and column that a line of a stack ends in. -/
def placeOfLine? (line : List Char) : Option (Nat × Nat) :=
  match (splitAll ':' line).reverse with
  | column :: number :: _ => do
    let c ← placeNumber? column
    let n ← placeNumber? number
    return (n, c)
  | _ => none

/-- The lines of a text. A carriage return in front of a line feed is no part of its line. -/
def linesOf (cs : List Char) : List (List Char) :=
  let lines := splitAll '\n' cs
  let ended := lines.dropLast.map fun line =>
    if line.getLast? = some '\r' then line.dropLast else line
  ended ++ lines.getLast?.toList

/-- The first place that is named in a stack, or zero. -/
def placeOfStack (stack : Option String) : Nat × Nat :=
  match stack with
  | none => (0, 0)
  | some s => ((linesOf s.toList).findSome? placeOfLine?).getD (0, 0)

/-- What an error in the code means for the run. -/
def Failure.ofReport (r : ErrorReport) (timeout : Duration) : Failure :=
  match r.name with
  | "TimeoutError" => .timeout .soft timeout
  | "CancellationError" => .cancelled
  | "SyntaxError" | "TranspileError" =>
    let (line, column) := placeOfStack r.stack
    .transpile ⟨⟨line, column⟩, .reported r.message⟩
  | _ => .execution r.name r.message r.stack

/-- How a worker went away; no code if a signal ended it or nothing is known. -/
structure WorkerExit where
  code : Option Int := none
  reason : Option String := none
deriving DecidableEq, Repr

namespace WorkerExit

def isClean (e : WorkerExit) : Bool := e.code = some 0

def text (e : WorkerExit) : String :=
  match e.code, e.reason with
  | some code, _ => s!"exit code {code}"
  | none, some reason => reason
  | none, none => "unknown exit status"

end WorkerExit

end Scratchpad
