import Scratchpad.Engine.Connection
import Scratchpad.Json.Write
import Scratchpad.Shell.Run
import Scratchpad.Text.Letter

/-! Programs that work as workers: they read messages line by line and put out others. -/
namespace Scratchpad.Rehearsal

open Wire (HostMessage WorkerMessage)

/-- What a worker can do. -/
inductive Act where
  | sleep (d : Duration)
  | leave (e : WorkerExit)
  | vanish
  | say (m : WorkerMessage)
  /-- Says something about what the worker was asked for last. -/
  | reply (m : WorkerMessage)

structure Program where
  folder : Folder
  place : Folder.Place
  command : List String
  /-- The messages that have come, a line for each. -/
  heard : List String := []
  /-- How many of its acts are known already. -/
  known : Nat := 0

namespace Program

/-- Why a command cannot be started at a place, if it cannot. -/
def fault? (folder : Folder) (place : Except FileFault Folder.Place) : List String → Option String
  | [] => some "empty worker command"
  | program :: _ =>
    (Shell.startFault? folder place program).map fun f =>
      s!"failed to spawn {program}: {f.message}"

/-! ### What a program puts out -/

def bytes (c : Char) : List UInt8 :=
  let n := c.toNat
  if Shell.rawStart ≤ n then [(n - Shell.rawStart).toUInt8] else (String.singleton c).toUTF8.toList

/-- The text of a line, if the bytes of the line make one. -/
def lineText? (line : List Char) : Option String :=
  if line.any fun c => Shell.rawStart ≤ c.toNat then
    String.fromUTF8? (ByteArray.mk (line.flatMap bytes).toArray)
  else some (.ofList line)

def trim (cs : List Char) : List Char :=
  ((cs.dropWhile Text.isWhiteSpace).reverse.dropWhile Text.isWhiteSpace).reverse

/-- The message in a line, if there is one. -/
def message? (text : String) : Option WorkerMessage :=
  WorkerMessage.read? (.ofList (trim text.toList))

/-- Acts that come from what is put out; the line in progress is given in reverse. A line that is not
text is the last one that is read, and a line without an end counts only when the program has ended. -/
def actsOf (ended : Bool) : List Char → List Shell.Item → List Act
  | line, .pause d :: items => .sleep d :: actsOf ended line items
  | line, .char '\n' :: items =>
    match lineText? line.reverse with
    | some text => ((message? text).map Act.say).toList ++ actsOf ended [] items
    | none => pauses items
  | line, .char c :: items => actsOf ended (c :: line) items
  | line, [] =>
    if ended then (((lineText? line.reverse).bind message?).map Act.say).toList else []
where
  pauses (items : List Shell.Item) : List Act :=
    items.filterMap fun
      | .pause d => some (.sleep d)
      | .char _ => none

def signalled : WorkerExit := ⟨none, some "terminated by signal"⟩

variable (p : Program)

/-- All that the program does with the messages that have come. -/
def acts : List Act :=
  let (items, ending) := Shell.transcript p.folder p.place p.command p.heard
  match ending with
  | .waiting => actsOf false [] items
  | .killed => actsOf true [] items ++ [.leave signalled]
  | .exited code => actsOf true [] items ++ [.leave ⟨some code, none⟩]

/-- The acts that are not known yet. -/
def proceed : Program × List Act :=
  let acts := p.acts
  ({ p with known := acts.length }, acts.drop p.known)

/-- A message comes to the program. -/
def hear (m : HostMessage) : Program × List Act :=
  { p with heard := p.heard ++ [m.toJson.render] }.proceed

end Program

end Scratchpad.Rehearsal
