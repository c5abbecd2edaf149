import Scratchpad.Backoff
import Scratchpad.Decimal.Binary64
import Scratchpad.Instrument.Options
import Scratchpad.Language
import Scratchpad.Memory
import Scratchpad.ScriptCache

/-! The settings of an engine and of the languages that it runs. -/
namespace Scratchpad

open Decimal (Binary64)

/-- How long a run waits for a newer one to take its place. -/
structure ThrottleSettings where
  minDelay : Duration := .ofMillis 50
  maxDelay : Duration := .ofSeconds 1
  /-- Share of the average duration that is added to the least delay. -/
  durationWeight : Binary64 := .ofRatio 1 2
  /-- How many durations are averaged. -/
  window : Nat := 20
deriving DecidableEq, Repr

structure CacheSettings where
  maxMemoryBytes : Nat := ScriptCache.defaultMemory
  k : Nat := ScriptCache.defaultK
deriving DecidableEq, Repr

structure EngineSettings where
  /-- How long a new worker may take to get ready. -/
  readyTimeout : Duration := .ofSeconds 30
  /-- How long a worker may exceed the limit of a run before it is given up. -/
  safetyGrace : Duration := .ofSeconds 2
  /-- Whether a worker that was given up is replaced. -/
  recycleOnHardTimeout : Bool := true
  /-- How many events wait for a slow listener. -/
  eventCapacity : Nat := 1024
  restart : RestartPolicy := {}
deriving DecidableEq, Repr

structure LanguageSettings where
  /-- The program that runs snippets, and its arguments. -/
  workerCommand : List String
  /-- A program that takes the place of the built-in transpiler. -/
  transpilerCommand : Option (List String) := none
  defaultTimeout : Duration := .ofSeconds 5
  debugFunctionName : String := Instrument.Options.debugFunction {}
  /-- Whether snippets are instrumented. -/
  instrument : Bool := true
  /-- Whether the memory of the worker is looked after. -/
  memoryManagement : Bool := false
  maxIterations : Nat := Instrument.Options.maxIterations {}
  checkInterval : Nat := Instrument.Options.checkInterval {}
deriving DecidableEq, Repr

namespace LanguageSettings

def defaultFor : Language → LanguageSettings
  | .javascript | .typescript => { workerCommand := ["node", "workers/javascript.js"] }
  | .python =>
    { workerCommand := ["python3", "-u", "workers/python.py"], memoryManagement := true }

/-- How snippets of the language are instrumented. -/
def instrumentOptions (s : LanguageSettings) : Instrument.Options :=
  { debugFunction := s.debugFunctionName
    maxIterations := s.maxIterations
    checkInterval := s.checkInterval }

end LanguageSettings

structure Settings where
  engine : EngineSettings := {}
  cache : CacheSettings := {}
  throttle : ThrottleSettings := {}
  memory : Memory.Settings := {}
  /-- By name, in the order of the names. -/
  languages : List (String × LanguageSettings) := []
deriving DecidableEq, Repr

/-- Why settings are refused. -/
inductive SettingsFault where
  | zeroK
  | delaysCross
  | emptyWindow
  | memoryLimitsCross
  | noEventCapacity
  | unknownLanguage (name : String)
  | noCommand (name : String)
  | noCheckInterval (name : String)
  | debugFunctionName (name : String)
deriving DecidableEq, Repr

def SettingsFault.message : SettingsFault → String
  | zeroK => "cache.k must be at least 1"
  | delaysCross => "throttle.min_delay must not exceed throttle.max_delay"
  | emptyWindow => "throttle.window must be at least 1"
  | memoryLimitsCross => "memory limits must satisfy soft <= hard <= critical"
  | noEventCapacity => "engine.event_capacity must be at least 1"
  | unknownLanguage name => Language.unknownMessage name
  | noCommand name => s!"languages.{name}.worker_command must not be empty"
  | noCheckInterval name => s!"languages.{name}.check_interval must be at least 1"
  | debugFunctionName name => s!"languages.{name}.debug_function_name must be a plain identifier"

/-- Letters, digits, underscores and dollar signs, and at least one of them. -/
def isPlainIdentifier (s : String) : Bool :=
  !s.isEmpty && s.toList.all fun c => c.isAlphanum || c = '_' || c = '$'

def LanguageSettings.fault? (name : String) (s : LanguageSettings) : Option SettingsFault :=
  if (Language.ofAlias? name).isNone then some (.unknownLanguage name)
  else if s.workerCommand.isEmpty then some (.noCommand name)
  else if s.checkInterval = 0 then some (.noCheckInterval name)
  else if !isPlainIdentifier s.debugFunctionName then some (.debugFunctionName name)
  else none

namespace Settings

/-- The languages that are there unless others are named. -/
def builtinLanguages : List (String × LanguageSettings) :=
  [("javascript", .defaultFor .javascript), ("python", .defaultFor .python),
    ("typescript", .defaultFor .typescript)]

def withBuiltinLanguages : Settings := { languages := builtinLanguages }

variable (s : Settings)

/-- The first fault of the settings. -/
def fault? : Option SettingsFault :=
  if s.cache.k = 0 then some .zeroK
  else if s.throttle.maxDelay.nanos < s.throttle.minDelay.nanos then some .delaysCross
  else if s.throttle.window = 0 then some .emptyWindow
  else if !(s.memory.softLimitBytes ≤ s.memory.hardLimitBytes &&
      s.memory.hardLimitBytes ≤ s.memory.criticalLimitBytes) then some .memoryLimitsCross
  else if s.engine.eventCapacity = 0 then some .noEventCapacity
  else s.languages.findSome? fun (name, l) => l.fault? name

/-- The settings of each language, if all names are known. -/
def languageSettings? : Option (List (Language × LanguageSettings)) :=
  s.languages.mapM fun (name, l) => (Language.ofAlias? name).map (·, l)

/-- The settings under the name of a language itself. -/
def language? (l : Language) : Option LanguageSettings := s.languages.lookup l.name

end Settings

end Scratchpad
