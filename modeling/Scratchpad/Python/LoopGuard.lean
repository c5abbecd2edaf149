import Scratchpad.Instrument.Options
import Scratchpad.Python.Statement
import Scratchpad.Text.Edit

/-!
Loop guards. Iteration is led through helper functions, so that no line moves: a `for` counts the
items it draws, and a `while` becomes a `for` over a helper that tests the condition.
-/
namespace Scratchpad.Python

open Instrument (Options)
open Text (Edit)

/-- The iteration limit and the interval, as last arguments of a helper. -/
def limits (options : Options) : String :=
  s!"{options.maxIterations}, {max options.checkInterval 1})"

/-- A loop over items: the items go through a counting iterator. -/
def forEdits (o : Outline) (options : Options) (s : Statement) : List Edit :=
  match find o (s.first + 1) s.last "in" with
  | none => []
  | some inWord =>
    match find o (inWord + 1) s.last ":" with
    | none => []
    | some colon =>
      if colon = inWord + 1 then []
      else [.openAt (o.start (inWord + 1)) "__livepad_iter((",
        .closeAt (o.stop (colon - 1)) ("), " ++ limits options)]

/-- How the condition of a `while` loop is tested in every round. -/
inductive Test where
  /-- In place, by a check that counts; for conditions that yield. -/
  | inPlace
  /-- In a generator expression, which can bind names outside itself. -/
  | generator (async : Bool)
  | function
deriving DecidableEq, Repr

def testFor (o : Outline) (first colon : Nat) : Test :=
  let uses (word : String) : Bool := (Outline.upTo (first + 1) colon).any (o.is · word)
  if uses "yield" then .inPlace
  else if uses "await" then .generator true
  else if uses ":=" then .generator false
  else .function

/-- A `while` loop; checks in place are numbered. -/
def whileEdits (o : Outline) (options : Options) (number : Nat) (s : Statement) (colon : Nat) :
    Test → List Edit
  | .inPlace => [
    .openAt (o.start (s.first + 1)) s!"__livepad_check({number}, (",
    .closeAt (o.stop (colon - 1)) ("), " ++ limits options)]
  | .generator async =>
    let head :=
      if async then "async for __livepad_ in __livepad_until_async((("
      else "for __livepad_ in __livepad_until((("
    [⟨o.start s.first, o.start (s.first + 1), .replace, head⟩,
      .closeAt (o.stop (colon - 1)) (") for __livepad_ in __livepad_repeat()), " ++ limits options)]
  | .function => [
    ⟨o.start s.first, o.start (s.first + 1), .replace,
      "for __livepad_ in __livepad_while(lambda: ("⟩,
    .closeAt (o.stop (colon - 1)) ("), " ++ limits options)]

/-- Guards for the loops among statements that start a line; `checks` have been numbered so far. -/
def guardEditsFrom (o : Outline) (options : Options) (checks : Nat) : List Statement → List Edit
  | [] => []
  | s :: stmts =>
    if !s.startsLine then guardEditsFrom o options checks stmts
    else if o.is s.first "for" then forEdits o options s ++ guardEditsFrom o options checks stmts
    else if o.is s.first "while" then
      match find o (s.first + 1) s.last ":" with
      | none => guardEditsFrom o options checks stmts
      | some colon =>
        if colon = s.first + 1 then guardEditsFrom o options checks stmts
        else
          let test := testFor o s.first colon
          let checks' := if test = .inPlace then checks + 1 else checks
          whileEdits o options checks' s colon test ++ guardEditsFrom o options checks' stmts
    else guardEditsFrom o options checks stmts

end Scratchpad.Python
