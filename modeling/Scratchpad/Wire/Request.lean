import Scratchpad.Instrument.Options
import Scratchpad.Wire.Message

/-! Requests to run a snippet, and the reports that answer them. -/
namespace Scratchpad.Wire

/-- What a caller may choose for one run. -/
structure RequestOptions where
  /-- None leaves the limit to the language. -/
  timeout : Option Duration := none
  showUndefined : Bool := false
  loopProtection : Bool := true
  magicComments : Bool := true
deriving DecidableEq, Repr

structure Request where
  id : Uuid
  code : String
  language : Language
  options : RequestOptions := {}
deriving DecidableEq, Repr

structure ConsoleEntry where
  kind : ConsoleKind
  data : List Json
deriving Repr

/-- A value reported for a line. -/
structure DebugEntry where
  line : Nat
  data : Json
deriving Repr

structure Report where
  id : Uuid
  language : Language
  value : Json
  console : List ConsoleEntry
  debug : List DebugEntry
  durationMillis : Nat
  /-- Whether the instrumented code came from the cache. -/
  cacheHit : Bool
deriving Repr

/-- The first value reported for a line. -/
def Report.debugAt (r : Report) (line : Nat) : Option Json :=
  (r.debug.find? (·.line = line)).map (·.data)

/-- Instrumentation for one run: some of it may be switched off. -/
def RequestOptions.applyTo (r : RequestOptions) (o : Instrument.Options) : Instrument.Options :=
  { o with loopProtection := r.loopProtection, magicComments := r.magicComments }

/-! ### Writing -/

def RequestOptions.toJson (o : RequestOptions) : Json :=
  .object [("timeout", .ofOption (.string ·.render) o.timeout),
    ("show_undefined", .bool o.showUndefined), ("loop_protection", .bool o.loopProtection),
    ("magic_comments", .bool o.magicComments)]

def Request.toJson (r : Request) : Json :=
  .object [("id", uuidJson r.id), ("code", .string r.code), ("language", .string r.language.name),
    ("options", r.options.toJson)]

def ConsoleEntry.toJson (e : ConsoleEntry) : Json :=
  .object [("console_type", .string e.kind.name), ("data", .array e.data)]

def DebugEntry.toJson (e : DebugEntry) : Json :=
  .object [("line", .nat e.line), ("data", e.data)]

def Report.toJson (r : Report) : Json :=
  .object [("id", uuidJson r.id), ("language", .string r.language.name), ("value", r.value),
    ("console", .array (r.console.map (·.toJson))), ("debug", .array (r.debug.map (·.toJson))),
    ("duration_ms", .nat r.durationMillis), ("cache_hit", .bool r.cacheHit)]

/-! ### Reading -/

def RequestOptions.ofJson? (j : Json) : Option RequestOptions := do
  let r ← j.record? ["timeout", "show_undefined", "loop_protection", "magic_comments"] true
  return {
    timeout := ← r.getD? "timeout" (Json.nullable? Json.duration?) none
    showUndefined := ← r.getD? "show_undefined" Json.bool? false
    loopProtection := ← r.getD? "loop_protection" Json.bool? true
    magicComments := ← r.getD? "magic_comments" Json.bool? true }

def Request.ofJson? (j : Json) : Option Request := do
  let r ← j.record? ["id", "code", "language", "options"] true
  return {
    id := ← r.get? "id" Json.uuid?
    code := ← r.get? "code" Json.string?
    language := ← r.get? "language" (Json.constant? Language.ofName?)
    options := ← r.getD? "options" RequestOptions.ofJson? {} }

def ConsoleEntry.ofJson? (j : Json) : Option ConsoleEntry := do
  let r ← j.record? ["console_type", "data"] true
  return ⟨← r.get? "console_type" (Json.constant? ConsoleKind.ofName?),
    ← r.get? "data" (Json.items? value?)⟩

def DebugEntry.ofJson? (j : Json) : Option DebugEntry := do
  let r ← j.record? ["line", "data"] true
  return ⟨← r.get? "line" Json.halfWord?, ← r.get? "data" value?⟩

def Report.ofJson? (j : Json) : Option Report := do
  let r ← j.record?
    ["id", "language", "value", "console", "debug", "duration_ms", "cache_hit"] true
  return {
    id := ← r.get? "id" Json.uuid?
    language := ← r.get? "language" (Json.constant? Language.ofName?)
    value := ← r.get? "value" value?
    console := ← r.get? "console" (Json.items? ConsoleEntry.ofJson?)
    debug := ← r.get? "debug" (Json.items? DebugEntry.ofJson?)
    durationMillis := ← r.get? "duration_ms" Json.word?
    cacheHit := ← r.get? "cache_hit" Json.bool? }

def Request.shape : Json.Shape :=
  .record [("id", .any), ("code", .any), ("language", .any), ("options",
    .record [("timeout", .any), ("show_undefined", .any), ("loop_protection", .any),
      ("magic_comments", .any)])]

def Report.shape : Json.Shape :=
  .record [("id", .any), ("language", .any), ("value", .any),
    ("console", .list (.record [("console_type", .any), ("data", .any)])),
    ("debug", .list (.record [("line", .any), ("data", .any)])),
    ("duration_ms", .any), ("cache_hit", .any)]

def Request.read? (text : String) : Option Request := (Json.readAs shape text).bind ofJson?

def Report.read? (text : String) : Option Report := (Json.readAs shape text).bind ofJson?

end Scratchpad.Wire
