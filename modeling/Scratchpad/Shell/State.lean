import Scratchpad.Duration
import Scratchpad.Folder
import Scratchpad.Shell.Basic

/-! The state of a running script. -/
namespace Scratchpad.Shell

/-- What a script puts out: characters, and the time that goes by. -/
inductive Item where
  | char (c : Char)
  | pause (d : Duration)
deriving DecidableEq, Repr

/-- Characters from here on stand for bytes that do not belong to a character. -/
def rawStart : Nat := 0x10ff00

/-- A byte that does not belong to a character stands for itself as one of the last characters. -/
def rawByte (b : Nat) : Char := if b < 128 then Char.ofNat b else Char.ofNat (rawStart + b % 256)

/-- How a script goes on. -/
inductive Flow where
  | next
  | break (levels : Nat)
  | continue (levels : Nat)
  | return
  | exit
  /-- A signal ended the script. -/
  | killed
  /-- The script waits for input that there is not yet. -/
  | starved
deriving DecidableEq, Repr

structure State where
  folder : Folder
  place : Folder.Place := []
  name : String := "sh"
  args : List String := []
  values : List (String × String) := []
  functions : List (String × Command) := []
  status : Nat := 0
  input : List Char := []
  /-- Whether no more input comes. -/
  ended : Bool := false
  /-- What was put out, last first. -/
  output : List Item := []

namespace State

variable (s : State)

def setStatus (n : Nat) : State := { s with status := n % 256 }

def put (cs : List Char) : State := { s with output := (cs.map .char).reverse ++ s.output }

def pause (d : Duration) : State := { s with output := .pause d :: s.output }

def assign (name value : String) : State :=
  { s with values := (name, value) :: s.values.filter (·.1 ≠ name) }

/-- The number by which a script knows its own process. -/
def processNumber : String := "4711"

/-- The value of a parameter. -/
def value? (name : String) : Option String :=
  match name with
  | "?" => some (toString s.status)
  | "$" => some processNumber
  | "#" => some (toString s.args.length)
  | "@" | "*" => some (" ".intercalate s.args)
  | "0" => some s.name
  | "!" => none
  | _ =>
    match name.toNat? with
    | some n => s.args[n - 1]?
    | none => s.values.lookup name

/-- Characters that separate fields. -/
def separators : List Char := ((s.values.lookup "IFS").getD " \t\n").toList

end State

end Scratchpad.Shell
