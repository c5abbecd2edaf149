import Scratchpad.CommandLine.Help
import Scratchpad.Json.Write
import Scratchpad.Rehearsal.Stage
import Scratchpad.Settings.Load
import Scratchpad.Settings.Write

/-! What the commands answer. -/
namespace Scratchpad.CommandLine

open Rehearsal (Stage)

/-- Where a command line is used. -/
structure Surroundings where
  folder : Folder
  /-- The settings file of the user. -/
  ownSettings : ShownPath
  /-- A number for the next run. -/
  freshId : Uuid
  /-- How workers behave that are started in a folder, if one is named. -/
  workers : Option String → Rehearsal.Script

/-! ### What is printed -/

/-- What goes to each of the two outputs. -/
structure Output where
  out : String := ""
  err : String := ""
deriving DecidableEq, Repr

namespace Output

def ofOut (line : String) : Output := { out := line ++ "\n" }

def ofErr (line : String) : Output := { err := line ++ "\n" }

def append (a b : Output) : Output := ⟨a.out ++ b.out, a.err ++ b.err⟩

def concat (os : List Output) : Output := os.foldl append {}

end Output

/-- Strings stand without quotes. -/
def displayValue : Json → String
  | .string s => s
  | j => j.render

/-- A number that takes at least four places. -/
def lineNumber (n : Nat) : String :=
  let digits := toString n
  "".pushn ' ' (4 - digits.length) ++ digits

def displayEvent (e : Engine.Event) : Output :=
  match e.kind with
  | .debug entry => .ofOut s!"{lineNumber entry.line} │ {displayValue entry.data}"
  | .console entry =>
    let values := " ".intercalate (entry.data.map displayValue)
    .ofOut s!"   {entry.kind.name} │ {values}"
  | .status text => .ofErr s!"[{e.language.name}] {text}"
  | .complete _ | .error _ => {}

/-- The events of a run, and those of no run, up to the one that ends the run. -/
def displayRun (id : Uuid) (events : List Engine.Event) : Output :=
  let heard := events.filter fun e => e.id = some id || e.id = none
  .concat ((heard.takeWhile fun e => !e.isTerminal).map displayEvent)

def displayFailure (f : Failure) : Output := .ofErr s!"✗ {f.message}"

def displaySummary (r : Wire.Report) : Output :=
  let cached := if r.cacheHit then ", cached" else ""
  .ofErr s!"✓ {r.language.name} in {r.durationMillis}ms ({r.debug.length} values{cached})"

/-! ### Problems -/

/-- Why a command cannot be carried out, and what lies behind. -/
structure Problem where
  message : String
  cause : Option String := none
deriving DecidableEq, Repr

def Problem.output (p : Problem) : Output :=
  match p.cause with
  | none => .ofErr s!"Error: {p.message}"
  | some cause => .ofErr s!"Error: {p.message}\n\nCaused by:\n    {cause}"

/-! ### Files -/

/-- The name of a file, behind the last slash; a point for the folder itself is no name. -/
def fileName? (path : String) : Option String :=
  match (Folder.splitPath path).getLast? with
  | some name => if name = ".." then none else some name
  | none => none

/-- What stands behind the last point of a file name, unless the point comes first. -/
def extension? (path : String) : Option String := do
  let name ← fileName? path
  let extension := (name.toList.reverse.takeWhile (· ≠ '.')).reverse
  if extension.length + 1 < name.length then some (.ofList extension) else none

def languageFor (o : RunOptions) (file : String) : Except Problem Language :=
  match o.language <|> (extension? file).bind Language.ofExtension? with
  | some l => .ok l
  | none => .error ⟨s!"Cannot tell the language of {file}; pass --language", none⟩

namespace Surroundings

variable (s : Surroundings)

def readSource (file : String) : Except Problem String :=
  match s.folder.read [] file with
  | .ok text => .ok text
  | .error f => .error ⟨s!"Failed to read {file}", some f.message⟩

def settings (a : Arguments) : Except Problem Settings :=
  match Settings.load s.folder (a.config.map fun path => ⟨path, path⟩) s.ownSettings with
  | .ok settings => .ok settings
  | .error e => .error ⟨e.message, e.cause?⟩

def stage (a : Arguments) : Except Problem Stage := do
  return .ofSettings (← s.settings a) (s.workers a.workerFolder)

end Surroundings

/-! ### Answers -/

/-- What a command answers. -/
inductive Answer where
  /-- The flag tells whether all went well. -/
  | plain (output : Output) (ok : Bool)
  /-- A report, as data. -/
  | report (r : Wire.Report)
deriving Repr

namespace Surroundings

variable (s : Surroundings) (a : Arguments)

def instrument (file : String) (o : RunOptions) : Except Problem Answer := do
  let code ← s.readSource file
  let language ← languageFor o file
  let engine := (← s.stage a).engine
  return match engine.instrument code language o.request with
    | .ok text => .plain { out := text } true
    | .error d => .plain (displayFailure (.transpile d)) false

def run (file : String) (o : RunOptions) (json : Bool) : Except Problem Answer := do
  let code ← s.readSource file
  let request : Wire.Request := ⟨s.freshId, code, ← languageFor o file, o.request⟩
  let (outcome, stage) := (← s.stage a).complete (·.execute request)
  let shown := if json then {} else displayRun request.id stage.engine.events
  return match outcome with
    | some (.report (.ok r)) =>
      if json then .report r else .plain (shown.append (displaySummary r)) true
    | some (.report (.error f)) => .plain (shown.append (displayFailure f)) false
    | _ => .plain shown false

def config : Except Problem Answer := do
  return .plain { out := (← s.settings a).render } true

end Surroundings

/-! ### Watching -/

/-- A file that is run again and again. -/
structure Watch where
  language : Language
  options : RunOptions
  stage : Stage
  /-- How many events have been shown. -/
  shown : Nat

def Surroundings.watch (s : Surroundings) (a : Arguments) (file : String) (o : RunOptions) :
    Except Problem (Watch × Output) := do
  let language ← languageFor o file
  let (_, stage) := (← s.stage a).complete (·.warmUp language)
  return ({ language, options := o, stage, shown := stage.engine.events.length },
    .ofErr s!"Watching {file} (Ctrl-C to stop)")

/-- Runs the code of the file once more. -/
def Watch.rerun (w : Watch) (id : Uuid) (code : String) : Watch × Output :=
  let request : Wire.Request := ⟨id, code, w.language, w.options.request⟩
  let (outcome, stage) := w.stage.complete (·.run request .normal)
  let events := stage.engine.events.drop w.shown
  let last : Output := match outcome with
    | some (.report (.ok r)) => displaySummary r
    | some (.report (.error .superseded)) => {}
    | some (.report (.error f)) => displayFailure f
    | _ => {}
  ({ w with stage, shown := stage.engine.events.length },
    (Output.concat (events.map displayEvent)).append last)

/-! ### Command lines -/

def versionText : String := "livepad 0.2.0"

/-- What is to be done for a command line. -/
inductive Reply where
  | answer (a : Answer)
  /-- The words make no sense. -/
  | misuse
  /-- A file is looked at again after so many milliseconds. -/
  | watch (w : Watch) (file : String) (interval : Nat) (first : Output)

def Surroundings.reply (s : Surroundings) (words : List String) : Reply :=
  match Arguments.read words with
  | .error (.help c) => .answer (.plain { out := help c } true)
  | .error .version => .answer (.plain (.ofOut versionText) true)
  | .error .usage => .misuse
  | .ok a =>
    if a.logFile.isSome && (a.logFile.bind fileName?).isNone then
      .answer (.plain (Problem.output ⟨"--log-file needs a file name", none⟩) false)
    else
      let answered : Except Problem Answer → Reply
        | .ok x => .answer x
        | .error p => .answer (.plain p.output false)
      match a.command with
      | .run file o json => answered (s.run a file o json)
      | .instrument file o => answered (s.instrument a file o)
      | .config => answered (s.config a)
      | .watch file o interval =>
        match s.watch a file o with
        | .ok (w, first) => .watch w file (max interval 10) first
        | .error p => .answer (.plain p.output false)

end Scratchpad.CommandLine
