import Scratchpad.Python.LoopGuard
import Scratchpad.Python.Marker

/-! Reports from a Python program: printed output and the values of expressions at module level. -/
namespace Scratchpad.Python

open Instrument (Options debugClose)
open Text (Edit)

/-- A call of `print` becomes a call of the debug function. -/
def printEdit (o : Outline) (options : Options) (i : Nat) : Option Edit :=
  if o.is i "print" && o.is (i + 1) "(" && !(0 < i && o.isAny (i - 1) [".", "def"]) then
    some ⟨o.start i, o.stop (i + 1), .replace,
      options.debugHead (o.line i) (!o.is (i + 2) ")")⟩
  else none

def printEdits (o : Outline) (options : Options) : List Edit :=
  (List.range o.size).filterMap (printEdit o options)

/-- Whether a statement is an expression; `isFirst` marks the one that may be a docstring. -/
def isExpressionStatement (o : Outline) (options : Options) (isFirst : Bool) (s : Statement) :
    Bool :=
  let head := o.text s.first
  !(o.isIdent s.first && (statementWords.contains head || head == options.debugFunction))
    && !(head == "@" || head == "..." || o.is s.last ":")
    && !(o.isIdent s.first && ["match", "case", "type"].contains head && o.isIdent (s.first + 1))
    && !(isFirst && s.first = s.last && o.kind? s.first == some .string)
    && (findAssignment o s.first s.last).isNone
    && (find o s.first s.last ":").isNone

/-- Reports for expression statements on logical lines that start in the first column. -/
def wrapEditsFrom (o : Outline) (options : Options) (isFirst topLevel : Bool) :
    List Statement → List Edit
  | [] => []
  | s :: stmts =>
    let column := (o.tokens[s.first]?.map Token.column).getD 1
    let topLevel := if s.startsLine then column = 1 else topLevel
    let edits :=
      if topLevel && isExpressionStatement o options isFirst s then
        [.openAt (o.start s.first) (options.debugOpen (o.line s.first)),
          .closeAt (o.stop s.last) debugClose]
      else []
    edits ++ wrapEditsFrom o options false topLevel stmts

/-- Everything that is inserted into a program. -/
def instrumentEdits (o : Outline) (options : Options) : List Edit :=
  let stmts := statements o
  printEdits o options
    ++ (if options.loopProtection then guardEditsFrom o options 0 stmts else [])
    ++ (if options.wrapExpressions then wrapEditsFrom o options true false stmts else [])

def instrument (options : Options) (source : List Char) : List Char :=
  Edit.apply (instrumentEdits (tokenize .python source).outline options) source

end Scratchpad.Python
