import Scratchpad.Text.Diagnostic

/-! Tokens and comments of a program text. -/
namespace Scratchpad

/-- How a text is cut into tokens. -/
inductive Dialect where
  /-- JavaScript and TypeScript. -/
  | script
  | python
deriving DecidableEq, Repr

inductive Token.Kind where
  | ident
  | number
  | string
  | template
  | regex
  | punct
deriving DecidableEq, Repr

/-- A token with its range of characters and the position of its first character. -/
structure Token where
  kind : Token.Kind
  text : String
  start : Nat
  stop : Nat
  line : Nat
  column : Nat
  /-- First of its line, or first of all; a continued line does not count as ended. -/
  newlineBefore : Bool
deriving DecidableEq, Repr

structure Comment where
  text : String
  start : Nat
  stop : Nat
  line : Nat
deriving DecidableEq, Repr

end Scratchpad
