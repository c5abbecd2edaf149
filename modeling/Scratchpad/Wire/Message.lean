import Scratchpad.Failure
import Scratchpad.Json.Decode
import Scratchpad.Memory

/-! Messages between the host and a worker: one JSON object a line, told apart by its `type`. -/
namespace Scratchpad.Wire

open Json (Record)

/-- Options of an `execute` message. -/
structure RunOptions where
  /-- Milliseconds after which the worker is to give up. -/
  timeout : Nat
  showUndefined : Bool := false
  /-- The function that the code reports values to. -/
  debugFunction : Option String := none
deriving DecidableEq, Repr

structure TranspileOptions where
  language : Language
  fileName : Option String := none
deriving DecidableEq, Repr

inductive HostMessage where
  | execute (id : Uuid) (code : String) (language : Language) (options : RunOptions)
  | cancel (id : Uuid)
  | transpile (id : Uuid) (code : String) (options : TranspileOptions)
  | gc
  /-- Forget all names but the preserved ones. -/
  | reset (preserve : List String)
deriving DecidableEq, Repr

inductive ConsoleKind where
  | log
  | info
  | warn
  | error
  | debug
deriving DecidableEq, Repr

namespace ConsoleKind

def name : ConsoleKind → String
  | .log => "log"
  | .info => "info"
  | .warn => "warn"
  | .error => "error"
  | .debug => "debug"

def ofName? (s : String) : Option ConsoleKind :=
  [ConsoleKind.log, .info, .warn, .error, .debug].find? (·.name == s)

end ConsoleKind

inductive WorkerMessage where
  | ready
  | console (id : Uuid) (kind : ConsoleKind) (data : List Json)
  | debug (id : Uuid) (line : Nat) (data : Json)
  | complete (id : Uuid) (data : Json)
  | error (id : Uuid) (data : ErrorReport)
  | status (id : Option Uuid) (message : String)
  | memory (report : Memory.Report)
deriving Repr

/-! ### Writing -/

def field {α : Type} (key : String) (f : α → Json) (value : Option α) : List (String × Json) :=
  match value with
  | some v => [(key, f v)]
  | none => []

def uuidJson (u : Uuid) : Json := .string u.render

def tagged (type : String) (fields : List (String × Json)) : Json :=
  .object (("type", .string type) :: fields)

def RunOptions.toJson (o : RunOptions) : Json :=
  .object ([("timeout", .nat o.timeout), ("showUndefined", .bool o.showUndefined)]
    ++ field "debugFunction" .string o.debugFunction)

def TranspileOptions.toJson (o : TranspileOptions) : Json :=
  .object (("language", .string o.language.name) :: field "fileName" .string o.fileName)

def ErrorReport.toJson (r : ErrorReport) : Json :=
  .object ([("name", .string r.name), ("message", .string r.message)]
    ++ field "stack" .string r.stack)

def reportJson (r : Memory.Report) : Json :=
  .object [("heapUsed", .nat r.heapUsed), ("heapTotal", .nat r.heapTotal),
    ("objectCount", .nat r.objectCount)]

namespace HostMessage

def kind : HostMessage → String
  | .execute .. => "execute"
  | .cancel _ => "cancel"
  | .transpile .. => "transpile"
  | .gc => "gc"
  | .reset _ => "reset"

def toJson (m : HostMessage) : Json :=
  tagged m.kind <|
    match m with
    | .execute id code language options =>
      [("id", uuidJson id), ("code", .string code), ("language", .string language.name),
        ("options", options.toJson)]
    | .cancel id => [("id", uuidJson id)]
    | .transpile id code options =>
      [("id", uuidJson id), ("code", .string code), ("options", options.toJson)]
    | .gc => []
    | .reset preserve => [("preserve", .array (preserve.map .string))]

end HostMessage

namespace WorkerMessage

def kind : WorkerMessage → String
  | .ready => "ready"
  | .console .. => "console"
  | .debug .. => "debug"
  | .complete .. => "complete"
  | .error .. => "error"
  | .status .. => "status"
  | .memory _ => "memory"

/-- The run that a message belongs to. -/
def id? : WorkerMessage → Option Uuid
  | .console id _ _ | .debug id _ _ | .complete id _ | .error id _ => some id
  | .status id _ => id
  | .ready | .memory _ => none

/-- Whether the message ends a run. -/
def isTerminal : WorkerMessage → Bool
  | .complete .. | .error .. => true
  | _ => false

def toJson (m : WorkerMessage) : Json :=
  tagged m.kind <|
    match m with
    | .ready => []
    | .console id kind data =>
      [("id", uuidJson id), ("consoleType", .string kind.name), ("data", .array data)]
    | .debug id line data => [("id", uuidJson id), ("line", .nat line), ("data", data)]
    | .complete id data => [("id", uuidJson id), ("data", data)]
    | .error id data => [("id", uuidJson id), ("data", ErrorReport.toJson data)]
    | .status id message =>
      [("id", .ofOption uuidJson id), ("data", .object [("message", .string message)])]
    | .memory report => [("data", reportJson report)]

end WorkerMessage

/-! ### Reading -/

/-- The type of a message and the rest of it. A message may also be an array that starts with the
type and goes on with the values of the fields. -/
def untag? : Json → Option (String × Json)
  | .object fields =>
    match fields.filter (·.1 == "type") with
    | [(_, .string type)] => some (type, .object (fields.filter (·.1 != "type")))
    | _ => none
  | .array (.string type :: items) => some (type, .array items)
  | _ => none

/-- A message without fields. -/
def noFields? : Json → Option Unit
  | .object _ | .array [] => some ()
  | _ => none

/-- A constant within a message; the object form may also hold an empty object. -/
def constant? {α : Type} (ofName? : String → Option α) : Json → Option α
  | .object [(s, .object [])] => ofName? s
  | j => j.constant? ofName?

def value? (j : Json) : Option Json := some j.normalize

def RunOptions.ofJson? (j : Json) : Option RunOptions := do
  let r ← j.record? ["timeout", "showUndefined", "debugFunction"] true
  return {
    timeout := ← r.get? "timeout" Json.word?
    showUndefined := ← r.getD? "showUndefined" Json.bool? false
    debugFunction := ← r.getD? "debugFunction" (Json.nullable? Json.string?) none }

def TranspileOptions.ofJson? (j : Json) : Option TranspileOptions := do
  let r ← j.record? ["language", "fileName"] true
  return {
    language := ← r.get? "language" (constant? Language.ofName?)
    fileName := ← r.getD? "fileName" (Json.nullable? Json.string?) none }

def ErrorReport.ofJson? (j : Json) : Option ErrorReport := do
  let r ← j.record? ["name", "message", "stack"] true
  return {
    name := ← r.get? "name" Json.string?
    message := ← r.get? "message" Json.string?
    stack := ← r.getD? "stack" (Json.nullable? Json.string?) none }

def memoryReport? (j : Json) : Option Memory.Report := do
  let r ← j.record? ["heapUsed", "heapTotal", "objectCount"] true
  return {
    heapUsed := ← r.getD? "heapUsed" Json.word? 0
    heapTotal := ← r.getD? "heapTotal" Json.word? 0
    objectCount := ← r.getD? "objectCount" Json.word? 0 }

def statusMessage? (j : Json) : Option String := do
  (← j.record? ["message"] true).get? "message" Json.string?

def HostMessage.ofJson? (j : Json) : Option HostMessage := do
  let (type, rest) ← untag? j
  match type with
  | "execute" =>
    let r ← rest.record? ["id", "code", "language", "options"] true
    return .execute (← r.get? "id" Json.uuid?) (← r.get? "code" Json.string?)
      (← r.get? "language" (constant? Language.ofName?)) (← r.get? "options" RunOptions.ofJson?)
  | "cancel" => return .cancel (← (← rest.record? ["id"] true).get? "id" Json.uuid?)
  | "transpile" =>
    let r ← rest.record? ["id", "code", "options"] true
    return .transpile (← r.get? "id" Json.uuid?) (← r.get? "code" Json.string?)
      (← r.get? "options" TranspileOptions.ofJson?)
  | "gc" => (noFields? rest).map fun _ => .gc
  | "reset" =>
    return .reset (← (← rest.record? ["preserve"] true).get? "preserve" (Json.items? Json.string?))
  | _ => none

def WorkerMessage.ofJson? (j : Json) : Option WorkerMessage := do
  let (type, rest) ← untag? j
  match type with
  | "ready" => (noFields? rest).map fun _ => .ready
  | "console" =>
    let r ← rest.record? ["id", "consoleType", "data"] true
    return .console (← r.get? "id" Json.uuid?)
      (← r.get? "consoleType" (constant? ConsoleKind.ofName?)) (← r.get? "data" (Json.items? value?))
  | "debug" =>
    let r ← rest.record? ["id", "line", "data"] true
    return .debug (← r.get? "id" Json.uuid?) (← r.get? "line" Json.halfWord?)
      (← r.get? "data" value?)
  | "complete" =>
    let r ← rest.record? ["id", "data"] true
    return .complete (← r.get? "id" Json.uuid?) (← r.getD? "data" value? .null)
  | "error" =>
    let r ← rest.record? ["id", "data"] true
    return .error (← r.get? "id" Json.uuid?) (← r.get? "data" ErrorReport.ofJson?)
  | "status" =>
    let r ← rest.record? ["id", "data"] true
    return .status (← r.getD? "id" (Json.nullable? Json.uuid?) none)
      (← r.get? "data" statusMessage?)
  | "memory" =>
    return .memory (← (← rest.record? ["data"] true).get? "data" memoryReport?)
  | _ => none

def HostMessage.read? (text : String) : Option HostMessage := (Json.read text).bind ofJson?

def WorkerMessage.read? (text : String) : Option WorkerMessage := (Json.read text).bind ofJson?

end Scratchpad.Wire
