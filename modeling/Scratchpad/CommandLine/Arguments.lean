import Scratchpad.Language
import Scratchpad.Wire.Request

/-! What the words of a command line ask for. -/
namespace Scratchpad.CommandLine

/-- Options of the commands that take a file. -/
structure RunOptions where
  language : Option Language := none
  timeout : Option Duration := none
  showUndefined : Bool := false
  noLoopProtection : Bool := false
  noMagicComments : Bool := false
deriving Repr

def RunOptions.request (o : RunOptions) : Wire.RequestOptions :=
  { timeout := o.timeout
    showUndefined := o.showUndefined
    loopProtection := !o.noLoopProtection
    magicComments := !o.noMagicComments }

inductive Command where
  | run (file : String) (options : RunOptions) (json : Bool)
  | instrument (file : String) (options : RunOptions)
  | watch (file : String) (options : RunOptions) (interval : Nat)
  | config
deriving Repr

structure Arguments where
  config : Option String := none
  workerFolder : Option String := none
  verbose : Bool := false
  logFile : Option String := none
  command : Command
deriving Repr

/-- What is to be done instead of running a command. -/
inductive Refusal where
  /-- How a command is used, or the program as a whole. -/
  | help (command : Option String)
  | version
  /-- The words make no sense. -/
  | usage
deriving DecidableEq, Repr

/-- An option: its long name, its letter, the name of its value if it has one, and what it is for. -/
structure Flag where
  name : String
  letter : Option Char
  value : Option String
  purpose : String
deriving DecidableEq, Repr

def Flag.takesValue (f : Flag) : Bool := f.value.isSome

/-- Flags that may stand on both sides of a command. -/
def globalFlags : List Flag :=
  [⟨"config", some 'c', "CONFIG", "Configuration file (default: ~/.config/livepad/config.toml)"⟩,
    ⟨"worker-dir", none, "WORKER_DIR", "Directory worker commands are started in"⟩,
    ⟨"verbose", some 'v', none, "Verbose logging"⟩,
    ⟨"log-file", none, "LOG_FILE", "Also write logs to this file"⟩]

def runFlags : List Flag :=
  [⟨"language", some 'l', "LANGUAGE", "Language (default: from the file extension)"⟩,
    ⟨"timeout", some 't', "TIMEOUT", "Caller timeout in milliseconds"⟩,
    ⟨"show-undefined", none, none, "Report expressions that evaluate to undefined / None"⟩,
    ⟨"no-loop-protection", none, none, "Do not inject loop guards"⟩,
    ⟨"no-magic-comments", none, none, "Ignore `//?` and `#?` markers"⟩]

def helpFlag : Flag := ⟨"help", some 'h', none, "Print help"⟩

def versionFlag : Flag := ⟨"version", some 'V', none, "Print version"⟩

/-- What a command is for, whether it takes a file, and the flags that only it knows. -/
structure CommandForm where
  name : String
  purpose : String
  takesFile : Bool
  flags : List Flag
deriving Repr

def commandForms : List CommandForm :=
  [⟨"run", "Execute a file once and print its results", true,
      runFlags ++ [⟨"json", none, none, "Print the execution report as JSON"⟩]⟩,
    ⟨"instrument", "Print the instrumented source a worker would receive", true, runFlags⟩,
    ⟨"watch", "Re-run a file whenever it changes (Ctrl-C to stop)", true,
      runFlags ++ [⟨"interval", none, "INTERVAL",
        "Polling interval in milliseconds [default: 250]"⟩]⟩,
    ⟨"config", "Print the effective configuration as TOML", false, []⟩]

def commandForm? (name : String) : Option CommandForm := commandForms.find? (·.name = name)

/-- A flag that was given, and its value. -/
abbrev Given := List (String × String)

/-- What has been read of a command line. -/
structure Reading where
  command : Option CommandForm := none
  /-- Flags in front of the command. -/
  outer : Given := []
  given : Given := []
  words : List String := []

def Reading.flags (r : Reading) : List Flag :=
  match r.command with
  | none => versionFlag :: helpFlag :: globalFlags
  | some c => helpFlag :: c.flags ++ globalFlags

/-- Adds a flag; none may be given twice on one side of the command. -/
def Reading.give (r : Reading) (f : Flag) (value : String) : Except Refusal Reading :=
  if f.name = "help" then .error (.help (r.command.map (·.name)))
  else if f.name = "version" then .error .version
  else if (r.given.lookup f.name).isSome then .error .usage
  else .ok { r with given := r.given ++ [(f.name, value)] }

/-- Adds a word that is no flag. -/
def Reading.word (r : Reading) (w : String) : Except Refusal Reading :=
  match r.command with
  | none =>
    match commandForm? w with
    | some c => .ok { r with command := some c, outer := r.given, given := [] }
    | none => .error .usage
  | some c =>
    if c.takesFile && r.words.isEmpty && w ≠ "" then .ok { r with words := [w] }
    else .error .usage

/-- Whether a word can be the value of a flag that stands in front of it. -/
def isValue (w : String) : Bool := !w.startsWith "-" || w = "-"

/-- A flag whose value may be the next word: the reading, and the words behind. -/
def Reading.giveWithNext (r : Reading) (f : Flag) (rest : List String) :
    Except Refusal (Reading × List String) :=
  if !f.takesValue then (r.give f "").map (·, rest)
  else
    match rest with
    | w :: rest => if isValue w then (r.give f w).map (·, rest) else .error .usage
    | [] => .error .usage

/-- Letters behind one hyphen. -/
def Reading.letters (r : Reading) (rest : List String) :
    List Char → Except Refusal (Reading × List String)
  | [] => .ok (r, rest)
  | c :: cs =>
    match r.flags.find? (·.letter = some c) with
    | none => .error .usage
    | some f =>
      if f.takesValue && !cs.isEmpty then
        let value := if cs.head? = some '=' then cs.drop 1 else cs
        (r.give f (.ofList value)).map (·, rest)
      else if f.takesValue then r.giveWithNext f rest
      else
        match r.give f "" with
        | .ok r => r.letters rest cs
        | .error e => .error e

def Reading.long (r : Reading) (w : List Char) (rest : List String) :
    Except Refusal (Reading × List String) :=
  let name := w.takeWhile (· ≠ '=')
  match r.flags.find? (·.name.toList = name) with
  | none => .error .usage
  | some f =>
    match w.drop name.length with
    | _ :: value =>
      if f.takesValue then (r.give f (.ofList value)).map (·, rest) else .error .usage
    | [] => r.giveWithNext f rest

/-- What is asked for by the words behind the word for help. -/
def helpAbout : List String → Refusal
  | [] => .help none
  | [w] => if w = "help" || (commandForm? w).isSome then .help (some w) else .usage
  | _ => .usage

/-- Reads words; behind two hyphens there are no flags. -/
def readWords : Nat → Bool → Reading → List String → Except Refusal Reading
  | 0, _, r, _ => .ok r
  | _, _, r, [] => .ok r
  | fuel + 1, flags, r, w :: rest =>
    if r.command.isNone && !flags then .error .usage
    else if r.command.isNone && w = "help" then .error (helpAbout rest)
    else if flags then
      match w.toList with
      | ['-', '-'] => readWords fuel false r rest
      | '-' :: '-' :: name =>
        match r.long name rest with
        | .ok (r, rest) => readWords fuel true r rest
        | .error e => .error e
      | '-' :: c :: cs =>
        match r.letters rest (c :: cs) with
        | .ok (r, rest) => readWords fuel true r rest
        | .error e => .error e
      | _ =>
        match r.word w with
        | .ok r => readWords fuel true r rest
        | .error e => .error e
    else
      match r.word w with
      | .ok r => readWords fuel false r rest
      | .error e => .error e

/-- A number of 64 bits; a plus sign may stand in front. -/
def word? (s : String) : Option Nat :=
  let ds := match s.toList with
    | '+' :: ds => ds
    | ds => ds
  if ds.isEmpty || !ds.all Char.isDigit then none
  else
    let n := ds.foldl (fun n c => n * 10 + (c.toNat - '0'.toNat)) 0
    if n < Nat.pow 2 64 then some n else none

/-- The value of a flag, if it is given. -/
def valueOf? {α : Type} (given : Given) (name : String) (f : String → Option α) :
    Except Refusal (Option α) :=
  match given.lookup name with
  | none => .ok none
  | some s =>
    match f s with
    | some a => .ok (some a)
    | none => .error .usage

def path? (s : String) : Option String := if s.isEmpty then none else some s

def runOptions (given : Given) : Except Refusal RunOptions := do
  return {
    language := ← valueOf? given "language" Language.ofAlias?
    timeout := (← valueOf? given "timeout" word?).map .ofMillis
    showUndefined := (given.lookup "show-undefined").isSome
    noLoopProtection := (given.lookup "no-loop-protection").isSome
    noMagicComments := (given.lookup "no-magic-comments").isSome }

def Arguments.read (words : List String) : Except Refusal Arguments := do
  let r ← readWords (words.length + 1) true {} words
  let given := r.given ++ r.outer
  let options ← runOptions r.given
  let interval := (← valueOf? r.given "interval" word?).getD 250
  let command ← match r.command.map (·.name), r.words with
    | some "run", [file] => .ok (Command.run file options (r.given.lookup "json").isSome)
    | some "instrument", [file] => .ok (.instrument file options)
    | some "watch", [file] => .ok (.watch file options interval)
    | some "config", [] => .ok .config
    | _, _ => .error Refusal.usage
  return {
    config := ← valueOf? given "config" path?
    workerFolder := ← valueOf? given "worker-dir" path?
    verbose := (given.lookup "verbose").isSome
    logFile := ← valueOf? given "log-file" path?
    command }

end Scratchpad.CommandLine
