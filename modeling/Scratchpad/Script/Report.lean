import Scratchpad.Script.LoopGuard
import Scratchpad.Script.Marker

/-! Reports from a script: console output and the values of expressions at the top level. -/
namespace Scratchpad.Script

open Instrument (Options debugClose)
open Text (Edit)

/-- A console call becomes a call of the debug function. -/
def consoleEdit (o : Outline) (options : Options) (i : Nat) : Option Edit :=
  if o.is i "console" && o.is (i + 1) "." && o.isAny (i + 2) ["log", "info", "debug"]
      && o.is (i + 3) "(" && !(0 < i && o.isAny (i - 1) [".", "?."]) then
    some ⟨o.start i, o.stop (i + 3), .replace,
      options.debugHead (o.line i) (!o.is (i + 4) ")")⟩
  else none

def consoleEdits (o : Outline) (options : Options) : List Edit :=
  (List.range o.size).filterMap (consoleEdit o options)

/-- Whether an assignment stands in the tokens from `i` to `last`, outside brackets. -/
def assigns (o : Outline) (i last : Nat) : Bool :=
  if i ≤ last then
    match o.pastOrAll i with
    | ⟨next, _⟩ => assignmentOperators.contains (o.text i) || assigns o next last
  else false
termination_by last + 1 - i
decreasing_by omega

/-- A string that switches a mode on, such as `"use strict"`. -/
def isDirective (o : Outline) (i : Nat) : Bool :=
  o.kind? i == some .string && "use ".toList.isPrefixOf ((o.text i).toList.drop 1)

def isExpressionStatement (o : Outline) (options : Options) (first last : Nat) : Bool :=
  let head := o.text first
  !(o.isIdent first && (reportsNothing options head || head == "delete"))
    && !(o.kind? first == some .punct && ["\x7b", ";", "\x7d", ")", "]"].contains head)
    && !(o.isAny first ["++", "--"] || o.isAny last ["++", "--"])
    && !(o.isIdent first && o.is (first + 1) ":")
    && !(first = last && isDirective o first)
    && !assigns o first last

/-- The edits that report the value of one statement. -/
def expressionEdits (o : Outline) (options : Options) (statement : Nat × Nat) : List Edit :=
  let (first, stop) := statement
  let ended := o.is stop ";"
  let last := if ended then stop - 1 else stop
  if (ended && stop = first) || !isExpressionStatement o options first last then []
  else [.openAt (o.start first) (options.debugOpen (o.line first)),
    .closeAt (o.stop last) debugClose]

def wrapEdits (o : Outline) (options : Options) : List Edit :=
  o.topLevelStatements.flatMap (expressionEdits o options)

/-- Everything that is inserted into a script once it is plain script code. -/
def instrumentEdits (o : Outline) (options : Options) : List Edit :=
  consoleEdits o options
    ++ (if options.loopProtection then guardEdits o options else [])
    ++ (if options.wrapExpressions then wrapEdits o options else [])

def instrument (options : Options) (source : List Char) : List Char :=
  Edit.apply (instrumentEdits (tokenize .script source).outline options) source

end Scratchpad.Script
