import Scratchpad.Text.Position

/-! What can be wrong with a program text, and where. -/
namespace Scratchpad.Text

inductive Fault where
  | unterminatedComment
  | unterminatedString
  | unterminatedTripleString
  | unterminatedTemplate
  /-- A closing bracket that closes nothing, or the wrong kind of bracket. -/
  | unexpected (closer : String)
  | neverClosed (opener : String)
  | interfaceWithoutBody
  | unterminatedTypeParameters
  | aliasWithoutType
  | dottedNamespace
  | namespaceWithoutEnd
  | patternInNamespaceExport
  | enumWithoutBody
  | enumWithoutEnd
  | enumWithoutKey
  | enumWithoutInitializer
  /-- A fault found by an outside tool, in its own words. -/
  | reported (message : String)
deriving DecidableEq, Repr

def Fault.message : Fault → String
  | .unterminatedComment => "Unterminated comment"
  | .unterminatedString => "Unterminated string literal"
  | .unterminatedTripleString => "Unterminated triple-quoted string"
  | .unterminatedTemplate => "Unterminated template literal"
  | .unexpected closer => s!"Unexpected '{closer}'"
  | .neverClosed opener => s!"'{opener}' is never closed"
  | .interfaceWithoutBody => "Expected interface body"
  | .unterminatedTypeParameters => "Unterminated type parameters"
  | .aliasWithoutType => "Expected '=' in type alias"
  | .dottedNamespace => "Dotted namespace names are not supported"
  | .namespaceWithoutEnd => "Unterminated namespace body"
  | .patternInNamespaceExport => "Exported namespace bindings must be plain names"
  | .enumWithoutBody => "Expected enum body"
  | .enumWithoutEnd => "Unterminated enum body"
  | .enumWithoutKey => "Expected enum member name"
  | .enumWithoutInitializer => "Expected enum initializer"
  | .reported message => message

structure Diagnostic extends Position where
  fault : Fault
deriving DecidableEq, Repr

namespace Diagnostic

def message (d : Diagnostic) : String := d.fault.message

/-- The message with its place behind it. -/
def render (d : Diagnostic) : String := s!"{d.message} ({d.line}:{d.column})"

end Diagnostic

end Scratchpad.Text
