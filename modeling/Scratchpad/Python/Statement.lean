import Scratchpad.Token.Outline

/-! Statements of a Python program and the words that stand outside brackets in them. -/
namespace Scratchpad.Python

/-- Words that start a statement which is no expression. -/
def statementWords : List String := [
  "def", "class", "if", "elif", "else", "for", "while", "with", "try", "except", "finally",
  "import", "from", "return", "pass", "raise", "del", "global", "nonlocal", "assert", "break",
  "continue", "async", "yield", "print"]

def assignmentOperators : List String := [
  "=", "+=", "-=", "*=", "/=", "//=", "%=", "**=", "@=", "&=", "|=", "^=", ">>=", "<<="]

/-- First and last token of a statement. -/
structure Statement where
  first : Nat
  last : Nat
  /-- Whether it starts a logical line. -/
  startsLine : Bool
deriving DecidableEq, Repr

/-- Brackets open behind a token; a closing bracket too many is passed over. -/
def depthBehind (depth : Nat) (text : String) : Nat :=
  if Token.isOpener text then depth + 1 else if Token.isCloser text then depth - 1 else depth

/-- Statements end at a logical line break and at a semicolon outside brackets. -/
def statementsFrom (i depth : Nat) (current : Option Statement) : List Token → List Statement
  | [] => current.toList
  | t :: ts =>
    let ends := t.newlineBefore && depth = 0
    let ended := if ends then current.toList else []
    let current := if ends then none else current
    if depth = 0 && t.text == ";" then
      ended ++ current.toList ++ statementsFrom (i + 1) depth none ts
    else
      let grown : Statement :=
        match current with
        | some s => { s with last := i }
        | none => ⟨i, i, t.newlineBefore⟩
      ended ++ statementsFrom (i + 1) (depthBehind depth t.text) (some grown) ts

def statements (o : Outline) : List Statement := statementsFrom 0 0 none o.tokens.toList

/-- The first of the given tokens that stands outside brackets and passes the test. -/
def findOutside (o : Outline) (test : String → Bool) (depth : Nat) : List Nat → Option Nat
  | [] => none
  | i :: is =>
    if depth = 0 && test (o.text i) then some i
    else findOutside o test (depthBehind depth (o.text i)) is

/-- The first token from `first` through `last` with this text outside brackets. -/
def find (o : Outline) (first last : Nat) (text : String) : Option Nat :=
  findOutside o (· == text) 0 (Outline.upTo first (last + 1))

/-- The first assignment operator outside brackets. -/
def findAssignment (o : Outline) (first last : Nat) : Option Nat :=
  findOutside o assignmentOperators.contains 0 (Outline.upTo first (last + 1))

end Scratchpad.Python
