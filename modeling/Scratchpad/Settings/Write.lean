import Scratchpad.Settings.Basic
import Scratchpad.Toml.Write

/-! Settings as a TOML document. -/
namespace Scratchpad

namespace Toml

def nat (n : Nat) : Toml := .integer n

def duration (d : Duration) : Toml := .string d.render

def strings (ss : List String) : Toml := .array (ss.map .string)

end Toml

def ThrottleSettings.toToml (s : ThrottleSettings) : Toml :=
  .table [("min_delay", .duration s.minDelay), ("max_delay", .duration s.maxDelay),
    ("duration_weight", .float s.durationWeight), ("window", .nat s.window)]

def CacheSettings.toToml (s : CacheSettings) : Toml :=
  .table [("max_memory_bytes", .nat s.maxMemoryBytes), ("k", .nat s.k)]

def Memory.Settings.toToml (s : Memory.Settings) : Toml :=
  .table [("soft_limit_bytes", .nat s.softLimitBytes), ("hard_limit_bytes", .nat s.hardLimitBytes),
    ("critical_limit_bytes", .nat s.criticalLimitBytes),
    ("object_soft_limit", .nat s.objectSoftLimit), ("object_hard_limit", .nat s.objectHardLimit),
    ("light_every", .nat s.lightEvery), ("full_every", .nat s.fullEvery),
    ("preserved_names", .strings s.preservedNames)]

def RestartPolicy.toToml (p : RestartPolicy) : Toml :=
  .table [("max_attempts", .nat p.maxAttempts), ("base_delay", .duration p.baseDelay),
    ("max_delay", .duration p.maxDelay)]

def EngineSettings.toToml (s : EngineSettings) : Toml :=
  .table [("ready_timeout", .duration s.readyTimeout), ("safety_grace", .duration s.safetyGrace),
    ("recycle_on_hard_timeout", .boolean s.recycleOnHardTimeout),
    ("event_capacity", .nat s.eventCapacity), ("restart", s.restart.toToml)]

/-- A command that is absent is left out. -/
def LanguageSettings.toToml (s : LanguageSettings) : Toml :=
  .table <| [("worker_command", .strings s.workerCommand)] ++
    (s.transpilerCommand.map fun c => ("transpiler_command", Toml.strings c)).toList ++
    [("default_timeout", .duration s.defaultTimeout),
      ("debug_function_name", .string s.debugFunctionName), ("instrument", .boolean s.instrument),
      ("memory_management", .boolean s.memoryManagement), ("max_iterations", .nat s.maxIterations),
      ("check_interval", .nat s.checkInterval)]

def Settings.toToml (s : Settings) : Toml :=
  .table [("engine", s.engine.toToml), ("cache", s.cache.toToml), ("throttle", s.throttle.toToml),
    ("memory", s.memory.toToml),
    ("languages", .table (s.languages.map fun (name, l) => (name, l.toToml)))]

def Settings.render (s : Settings) : String := s.toToml.render

end Scratchpad
