import Scratchpad.Script.Statement
import Scratchpad.Text.Edit

/-! Removal of `export`, so that a module runs as a plain script. -/
namespace Scratchpad.Script

open Text (Edit Diagnostic)

/-- Takes out export lists whole and the word `export` in front of declarations. -/
def exportEdit (o : Outline) (i : Nat) : Option Edit :=
  if !o.is i "export" || !o.startsStatement i then none
  else if o.isAny (i + 1) ["\x7b", "*"] then
    some (.blank o.source (o.start i) (o.stop (o.statementEnd i)))
  else
    let declared := if o.is (i + 1) "default" then i + 2 else i + 1
    if declared < o.size then some (.blank o.source (o.start i) (o.start declared)) else none

def exportEdits (o : Outline) : List Edit := (List.range o.size).filterMap (exportEdit o)

def transpile (source : List Char) : Except Diagnostic (List Char) :=
  let x := tokenize .script source
  match x.firstFault with
  | some fault => .error fault
  | none => .ok (Edit.apply (exportEdits x.outline) source)

end Scratchpad.Script
