import Scratchpad.Instrument.Options
import Scratchpad.Script.Statement
import Scratchpad.Text.Edit

/-! Loop guards: a counter around each loop, and a test of it as the first thing in the body. -/
namespace Scratchpad.Script

open Instrument (Options)
open Text (Edit)

/-- Name of the function that tells whether the run was cancelled. -/
def cancelCheck : String := "__livepad_cancelled"

inductive LoopBody where
  /-- The body is the block that opens here. -/
  | block (opener : Nat)
  /-- The body is this semicolon. -/
  | empty (semicolon : Nat)
  /-- The body is one statement without braces. -/
  | single (first last : Nat)
deriving DecidableEq, Repr

/-- The tokens of a loop, the label in front included. -/
structure Loop where
  start : Nat
  last : Nat
  body : LoopBody
deriving DecidableEq, Repr

def bodyOf (o : Outline) (first last : Nat) : LoopBody :=
  match o.text first with
  | "\x7b" => .block first
  | ";" => .empty first
  | _ => .single first last

/-- The loop keyword, or the label in front of it. -/
def labelStart (o : Outline) (keyword : Nat) : Nat :=
  if 2 ≤ keyword && o.is (keyword - 1) ":" && o.isIdent (keyword - 2)
      && !isKeyword (o.text (keyword - 2)) && o.startsStatement (keyword - 2) then keyword - 2
  else keyword

/-- A loop headed by `for` or `while`. -/
def headedLoop (o : Outline) (i : Nat) : Option Loop := do
  let head ← o.loopHeadEnd i
  let last ← o.statementSpan (head.val + 1)
  return ⟨labelStart o i, last.val, bodyOf o (head.val + 1) last.val⟩

/-- A `do` loop and its trailing `while`. -/
def doLoop (o : Outline) (i : Nat) : Option (Loop × Nat) := do
  let bodyEnd ← o.statementSpan (i + 1)
  let (trailing, last) ← o.doLoopTail bodyEnd.val
  return (⟨labelStart o i, last.val, bodyOf o (i + 1) bodyEnd.val⟩, trailing)

/-- A word that is a keyword here and not the name of a member. -/
def isLoopWord (o : Outline) (i : Nat) : Bool :=
  o.isAny i ["for", "while", "do"] && o.isIdent i && !(0 < i && o.isAny (i - 1) [".", "?."])

/-- Loops at the given indices; `trailing` lists the `while`s that end a `do` loop. -/
def loopsFrom (o : Outline) (trailing : List Nat) : List Nat → List Loop
  | [] => []
  | i :: is =>
    if trailing.contains i || !isLoopWord o i then loopsFrom o trailing is
    else if o.is i "do" then
      match doLoop o i with
      | some (l, w) => l :: loopsFrom o (w :: trailing) is
      | none => loopsFrom o trailing is
    else (headedLoop o i).toList ++ loopsFrom o trailing is

/-- All loops in the order of their keywords. -/
def loops (o : Outline) : List Loop := loopsFrom o [] (List.range o.size)

/-- Stops the loop with number `n` when it ran too long or the run was cancelled. -/
def guardText (options : Options) (n : Nat) : String :=
  s!"if (++__lp{n} > {options.maxIterations}) throw new RangeError(\"loop limit exceeded\"); "
  ++ s!"if (__lp{n} % {max options.checkInterval 1} === 0 && "
  ++ s!"typeof {cancelCheck} === \"function\" && {cancelCheck}()) "
  ++ "throw Object.assign(new Error(\"execution cancelled\"), "
  ++ "\x7b name: \"CancellationError\" \x7d);"

/-- The edits that guard a loop under the number `n`. -/
def Loop.edits (o : Outline) (options : Options) (n : Nat) (l : Loop) : List Edit :=
  let guard_ := guardText options n
  let body : List Edit :=
    match l.body with
    | .block opener => [.openAt (o.stop opener) s!" {guard_}"]
    | .empty semicolon =>
      [⟨o.start semicolon, o.stop semicolon, .replace, s!"\x7b {guard_} \x7d"⟩]
    | .single first last =>
      [.openAt (o.start first) s!"\x7b {guard_} ", .closeAt (o.stop last) " \x7d"]
  .openAt (o.start l.start) s!"\x7b let __lp{n} = 0; " :: body ++ [.closeAt (o.stop l.last) " \x7d"]

/-- Loops are numbered from one. -/
def guardEdits (o : Outline) (options : Options) : List Edit :=
  (loops o).zipIdx.flatMap fun (l, k) => l.edits o options (k + 1)

end Scratchpad.Script
