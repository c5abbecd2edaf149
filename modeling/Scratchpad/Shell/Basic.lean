/-! The part of the shell language that scripts of workers are written in. -/
namespace Scratchpad.Shell

/-- What a redirection does with a file or a descriptor. -/
inductive Direction where
  | input
  | output
  | append
  | duplicate
deriving DecidableEq, Repr

/-- Which end of a value is cut off. -/
structure Cut where
  suffix : Bool
  longest : Bool
deriving DecidableEq, Repr

mutual

/-- A part of a word; the flag tells whether it is quoted. -/
inductive Piece where
  | text (cs : List Char) (quoted : Bool)
  | param (name : String) (how : Expansion) (quoted : Bool)
  | output (c : Command) (quoted : Bool)
  | arithmetic (expression : List Piece)

/-- How the value of a parameter is used. -/
inductive Expansion where
  | plain
  | length
  | cut (how : Cut) (pattern : List Piece)
  /-- Another word if there is no value; the flag counts empty values as none. -/
  | otherwise (orEmpty : Bool) (word : List Piece)
  /-- Another word if there is a value. -/
  | instead (orEmpty : Bool) (word : List Piece)

inductive Redirection where
  | mk (descriptor : Nat) (direction : Direction) (target : List Piece)

inductive Command where
  | nothing
  | simple (settings : List (String × List Piece)) (words : List (List Piece))
    (redirections : List Redirection)
  | sequence (a b : Command)
  | both (a b : Command)
  | either (a b : Command)
  | negation (c : Command)
  | pipe (a b : Command)
  | loop (until_ : Bool) (condition body : Command)
  | each (name : String) (words : List (List Piece)) (body : Command)
  | cond (condition yes no : Command)
  | select (word : List Piece) (arms : List Arm)
  | redirected (c : Command) (redirections : List Redirection)
  /-- Runs in a shell of its own. -/
  | apart (c : Command)
  | define (name : String) (body : Command)

inductive Arm where
  | mk (patterns : List (List Piece)) (body : Command)

end

/-- A word: pieces without a blank between them. -/
abbrev Word := List Piece

instance : Inhabited Command := ⟨.nothing⟩

end Scratchpad.Shell
