import Scratchpad.Json.Decode
import Scratchpad.Settings.Basic
import Scratchpad.Toml.Read

/-! Settings from JSON and from TOML. What is not given has its default. -/
namespace Scratchpad

/-- With `exact`, records in the form of arrays have no further items. -/
def ThrottleSettings.ofJson? (exact : Bool) (j : Json) : Option ThrottleSettings := do
  let r ← j.record? ["min_delay", "max_delay", "duration_weight", "window"] exact
  let d : ThrottleSettings := {}
  return {
    minDelay := ← r.getD? "min_delay" Json.duration? d.minDelay
    maxDelay := ← r.getD? "max_delay" Json.duration? d.maxDelay
    durationWeight := ← r.getD? "duration_weight" Json.double? d.durationWeight
    window := ← r.getD? "window" Json.word? d.window }

def CacheSettings.ofJson? (exact : Bool) (j : Json) : Option CacheSettings := do
  let r ← j.record? ["max_memory_bytes", "k"] exact
  let d : CacheSettings := {}
  return {
    maxMemoryBytes := ← r.getD? "max_memory_bytes" Json.word? d.maxMemoryBytes
    k := ← r.getD? "k" Json.word? d.k }

def Memory.Settings.ofJson? (exact : Bool) (j : Json) : Option Memory.Settings := do
  let r ← j.record? ["soft_limit_bytes", "hard_limit_bytes", "critical_limit_bytes",
    "object_soft_limit", "object_hard_limit", "light_every", "full_every", "preserved_names"] exact
  let d : Memory.Settings := {}
  return {
    softLimitBytes := ← r.getD? "soft_limit_bytes" Json.word? d.softLimitBytes
    hardLimitBytes := ← r.getD? "hard_limit_bytes" Json.word? d.hardLimitBytes
    criticalLimitBytes := ← r.getD? "critical_limit_bytes" Json.word? d.criticalLimitBytes
    objectSoftLimit := ← r.getD? "object_soft_limit" Json.word? d.objectSoftLimit
    objectHardLimit := ← r.getD? "object_hard_limit" Json.word? d.objectHardLimit
    lightEvery := ← r.getD? "light_every" Json.word? d.lightEvery
    fullEvery := ← r.getD? "full_every" Json.word? d.fullEvery
    preservedNames := ← r.getD? "preserved_names" (Json.items? Json.string?) d.preservedNames }

def RestartPolicy.ofJson? (exact : Bool) (j : Json) : Option RestartPolicy := do
  let r ← j.record? ["max_attempts", "base_delay", "max_delay"] exact
  let d : RestartPolicy := {}
  return {
    maxAttempts := ← r.getD? "max_attempts" Json.halfWord? d.maxAttempts
    baseDelay := ← r.getD? "base_delay" Json.duration? d.baseDelay
    maxDelay := ← r.getD? "max_delay" Json.duration? d.maxDelay }

def EngineSettings.ofJson? (exact : Bool) (j : Json) : Option EngineSettings := do
  let r ← j.record? ["ready_timeout", "safety_grace", "recycle_on_hard_timeout",
    "event_capacity", "restart"] exact
  let d : EngineSettings := {}
  return {
    readyTimeout := ← r.getD? "ready_timeout" Json.duration? d.readyTimeout
    safetyGrace := ← r.getD? "safety_grace" Json.duration? d.safetyGrace
    recycleOnHardTimeout := ← r.getD? "recycle_on_hard_timeout" Json.bool? d.recycleOnHardTimeout
    eventCapacity := ← r.getD? "event_capacity" Json.word? d.eventCapacity
    restart := ← r.getD? "restart" (RestartPolicy.ofJson? exact) d.restart }

def LanguageSettings.ofJson? (exact : Bool) (j : Json) : Option LanguageSettings := do
  let r ← j.record? ["worker_command", "transpiler_command", "default_timeout",
    "debug_function_name", "instrument", "memory_management", "max_iterations",
    "check_interval"] exact
  let d : LanguageSettings := { workerCommand := [] }
  return {
    workerCommand := ← r.get? "worker_command" (Json.items? Json.string?)
    transpilerCommand :=
      ← r.getD? "transpiler_command" (Json.nullable? (Json.items? Json.string?)) none
    defaultTimeout := ← r.getD? "default_timeout" Json.duration? d.defaultTimeout
    debugFunctionName := ← r.getD? "debug_function_name" Json.string? d.debugFunctionName
    instrument := ← r.getD? "instrument" Json.bool? d.instrument
    memoryManagement := ← r.getD? "memory_management" Json.bool? d.memoryManagement
    maxIterations := ← r.getD? "max_iterations" Json.word? d.maxIterations
    checkInterval := ← r.getD? "check_interval" Json.word? d.checkInterval }

/-- A map from names, in the order of the names. -/
def languagesOfJson? (exact : Bool) : Json → Option (List (String × LanguageSettings))
  | .object fields => do
    let languages ← fields.mapM fun (name, j) => do
      return (name, ← LanguageSettings.ofJson? exact j)
    return languages.mergeSort fun a b => a.1 ≤ b.1
  | _ => none

def Settings.ofJson? (exact : Bool) (j : Json) : Option Settings := do
  let r ← j.record? ["engine", "cache", "throttle", "memory", "languages"] exact
  return {
    engine := ← r.getD? "engine" (EngineSettings.ofJson? exact) {}
    cache := ← r.getD? "cache" (CacheSettings.ofJson? exact) {}
    throttle := ← r.getD? "throttle" (ThrottleSettings.ofJson? exact) {}
    memory := ← r.getD? "memory" (Memory.Settings.ofJson? exact) {}
    languages := ← r.getD? "languages" (languagesOfJson? exact) Settings.builtinLanguages }

/-- Why a text gives no settings. -/
inductive SettingsError where
  /-- The text is not TOML, or does not have the form of settings. -/
  | form
  | fault (f : SettingsFault)
deriving Repr

/-- Settings from TOML text, if they are without fault. -/
def Settings.read (text : String) : Except SettingsError Settings :=
  match (Toml.readDocument? text).bind fun t => Settings.ofJson? false t.toJson with
  | none => .error .form
  | some s =>
    match s.fault? with
    | some f => .error (.fault f)
    | none => .ok s

end Scratchpad
