import Scratchpad.Instrument.Options
import Scratchpad.Python.Statement
import Scratchpad.Text.Edit

/-! Markers: a comment `#?` asks for the value of the statement on its line. -/
namespace Scratchpad.Python

open Instrument (Options debugClose)
open Text (Edit Diagnostic)

def isMarker (c : Comment) : Bool := "#?".toList.isPrefixOf c.text.toList

/-- The statement that ends on the line of a comment before it, if it is the only one. -/
def onlyStatement (o : Outline) (stmts : List Statement) (c : Comment) : Option Statement :=
  match stmts.filter fun s => o.line s.last = c.line && o.stop s.last ≤ c.start with
  | [s] => some s
  | _ => none

/-- The report of the names on the left of an assignment, unless one of them is more than a name. -/
def assignmentEdits (o : Outline) (options : Options) (line : Nat) (s : Statement) (op : Nat) :
    List Edit :=
  let targetsEnd := (find o s.first op ":").getD op
  if targetsEnd = s.first then []
  else
    let plain := (Outline.upTo s.first targetsEnd).all fun i => o.isIdent i || o.is i ","
    if !plain then []
    else
      let targets := Text.slice o.source (o.start s.first) (o.stop (targetsEnd - 1))
      let names := String.ofList targets
      let reported := if targets.contains ',' then s!"({names})" else names
      [.closeAt (o.stop s.last) ("; " ++ options.debugCall line reported)]

def markerEdits (o : Outline) (options : Options) (stmts : List Statement) (c : Comment) :
    List Edit :=
  match onlyStatement o stmts c with
  | none => []
  | some s =>
    let head := o.text s.first
    if !s.startsLine || o.line s.first ≠ c.line || statementWords.contains head
        || head == options.debugFunction || o.is s.last ":" || head == "@" then []
    else
      match findAssignment o s.first s.last with
      | some op => assignmentEdits o options c.line s op
      | none =>
        if (find o s.first s.last ":").isSome then []
        else [.openAt (o.start s.first) (options.debugOpen c.line),
          .closeAt (o.stop s.last) debugClose]

def markMagicComments (options : Options) (source : List Char) : List Char :=
  let x := tokenize .python source
  let o := x.outline
  let stmts := statements o
  Edit.apply ((x.comments.filter isMarker).flatMap (markerEdits o options stmts)) source

/-- A Python program runs as it is; this tells whether it can. -/
def check (source : List Char) : Except Diagnostic Unit :=
  match (tokenize .python source).firstFault with
  | some fault => .error fault
  | none => .ok ()

end Scratchpad.Python
