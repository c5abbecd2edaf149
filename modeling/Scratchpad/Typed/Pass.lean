import Scratchpad.Text.Edit
import Scratchpad.Typed.Extent

/-! State of the pass that takes types out of a script. -/
namespace Scratchpad.Typed

open Text (Edit)

/-- Edits that take tokens out, their line breaks excepted. -/
def removal (o : Outline) (first last : Nat) : Edit := .blank o.source (o.start first) (o.stop last)

/-- Takes a word out together with the blanks behind it. -/
def wordRemoval (o : Outline) (i : Nat) : Edit :=
  if i + 1 < o.size && !o.newlineBefore (i + 1) then
    .blank o.source (o.start i) (o.start (i + 1))
  else removal o i i

/-- Takes the tokens from `first` up to `stop` out if there are any. -/
def removalUpTo (o : Outline) (first stop : Nat) : List Edit :=
  if first < stop then [removal o first (stop - 1)] else []

/-- Takes out the annotation whose colon is at `i`, if it is one: the edits and the index behind. -/
def typeAt (o : Outline) (i : Nat) : List Edit × Nat :=
  if o.is i ":" then
    let stop := (o.pastType (i + 1)).val
    (if i + 1 < stop then [removal o i (stop - 1)] else [], stop)
  else ([], i)

structure Pass where
  edits : List Edit := []
  /-- Opening brackets of the parameter lists that were stripped. -/
  stripped : List Nat := []
  /-- Tokens up to this one belong to an import or export clause. -/
  clauseEnd : Option Nat := none

namespace Pass

variable (s : Pass)

def add (edits : List Edit) : Pass := { s with edits := s.edits ++ edits }

def remove (o : Outline) (first last : Nat) : Pass := s.add [removal o first last]

def inClause (i : Nat) : Bool := s.clauseEnd.any (i ≤ ·)

end Pass

end Scratchpad.Typed
