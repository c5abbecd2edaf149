import Scratchpad.Json.Basic

/-! JSON text of a value: in one line and without blanks, or laid out over several lines. -/
namespace Scratchpad.Json

def hexDigit (n : Nat) : Char := (Nat.toDigits 16 (n % 16)).headD '0'

/-- Quotes, backslashes and control characters are escaped; all else stands for itself. -/
def escapeChar (c : Char) : List Char :=
  if c = '"' then ['\\', '"']
  else if c = '\\' then ['\\', '\\']
  else if c = '\n' then ['\\', 'n']
  else if c = '\r' then ['\\', 'r']
  else if c = '\t' then ['\\', 't']
  else if c.toNat = 8 then ['\\', 'b']
  else if c.toNat = 12 then ['\\', 'f']
  else if c.toNat < 32 then ['\\', 'u', '0', '0', hexDigit (c.toNat / 16), hexDigit c.toNat]
  else [c]

def quote (s : String) : String := .ofList ('"' :: s.toList.flatMap escapeChar ++ ['"'])

mutual

def render : Json → String
  | .null => "null"
  | .bool b => if b then "true" else "false"
  | .int n => toString n
  | .float x => if x.isFinite then x.toJsonText else "null"
  | .string s => quote s
  | .array items => "[" ++ renderItems items ++ "]"
  | .object fields => "\x7b" ++ renderFields fields ++ "\x7d"

def renderItems : List Json → String
  | [] => ""
  | [v] => v.render
  | v :: vs => v.render ++ "," ++ renderItems vs

def renderFields : List (String × Json) → String
  | [] => ""
  | [(k, v)] => quote k ++ ":" ++ v.render
  | (k, v) :: fields => quote k ++ ":" ++ v.render ++ "," ++ renderFields fields

end

/-! ### Over several lines: two blanks for each level, and a blank behind each colon -/

def lineStart (depth : Nat) : String := "\n".pushn ' ' (2 * depth)

mutual

def layout (depth : Nat) : Json → String
  | .array [] => "[]"
  | .array (v :: vs) =>
    "[" ++ lineStart (depth + 1) ++ v.layout (depth + 1) ++ layoutItems depth vs ++ lineStart depth
      ++ "]"
  | .object [] => "\x7b\x7d"
  | .object ((k, v) :: fields) =>
    "\x7b" ++ lineStart (depth + 1) ++ quote k ++ ": " ++ v.layout (depth + 1)
      ++ layoutFields depth fields ++ lineStart depth ++ "\x7d"
  | j => j.render

def layoutItems (depth : Nat) : List Json → String
  | [] => ""
  | v :: vs => "," ++ lineStart (depth + 1) ++ v.layout (depth + 1) ++ layoutItems depth vs

def layoutFields (depth : Nat) : List (String × Json) → String
  | [] => ""
  | (k, v) :: fields =>
    "," ++ lineStart (depth + 1) ++ quote k ++ ": " ++ v.layout (depth + 1)
      ++ layoutFields depth fields

end

end Scratchpad.Json
