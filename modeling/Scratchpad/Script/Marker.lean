import Scratchpad.Instrument.Options
import Scratchpad.Script.Statement
import Scratchpad.Text.Edit

/-! Markers: a comment `//?` asks for the value of the statement on its line. -/
namespace Scratchpad.Script

open Instrument (Options debugClose)
open Text (Edit)

def isMarker (c : Comment) : Bool := "//?".toList.isPrefixOf c.text.toList

/-- The name that a statement declares or assigns. -/
def declaredName (o : Outline) (first : Nat) : Option String :=
  if o.isAny first ["const", "let", "var"] && o.isIdent (first + 1)
      && (o.is (first + 2) "=" || o.is (first + 2) ":") then some (o.text (first + 1))
  else if !isKeyword (o.text first) && o.isIdent first
      && assignmentOperators.contains (o.text (first + 1)) then some (o.text first)
  else none

/-- A call that already reports, or a statement that has no value. -/
def reportsNothing (options : Options) (head : String) : Bool :=
  statementWords.contains head || head == options.debugFunction || head == "console"

/-- The first and the last token on the line of a comment, as far as they stand before it. -/
def lineBefore (tokens : Array Token) (c : Comment) : Option (Nat × Nat) := do
  let first ← tokens.findIdx? fun t => t.line = c.line
  let after := tokens.toList.zipIdx.filter fun (t, _) => t.line = c.line && t.stop ≤ c.start
  let (_, last) ← after.getLast?
  return (first, last)

/-- The edits that one marker asks for: none unless a whole balanced statement stands before it. -/
def markerEdits (o : Outline) (options : Options) (c : Comment) : List Edit :=
  match lineBefore o.tokens c with
  | none => []
  | some (first, last) =>
    let ended := o.is last ";"
    if last < first || !o.startsStatement first || !o.balanced first last
        || (ended && last = first) then []
    else
      match declaredName o first with
      | some name =>
        let call := options.debugCall c.line name
        [.closeAt (o.stop last) (if ended then s!" {call};" else s!"; {call};")]
      | none =>
        if reportsNothing options (o.text first) then []
        else
          let stop := if ended then last - 1 else last
          [.openAt (o.start first) (options.debugOpen c.line), .closeAt (o.stop stop) debugClose]

def markMagicComments (options : Options) (source : List Char) : List Char :=
  let x := tokenize .script source
  Edit.apply ((x.comments.filter isMarker).flatMap (markerEdits x.outline options)) source

end Scratchpad.Script
