import Scratchpad.Text.Letter
import Scratchpad.Token.Basic
import Scratchpad.Token.Extent

/-! The piece of text at the front of a character list: a blank, a comment or a token. -/
namespace Scratchpad.Token

open Text (Fault isLetter isLetterOrNumber)

inductive Piece where
  | blank
  /-- A backslash that joins a line with the next one. -/
  | joint
  | comment
  | token (kind : Kind)
deriving DecidableEq, Repr

/-- The first character of a text belongs to its first piece, so only the others are counted. -/
structure Lexeme where
  piece : Piece
  more : Nat
  /-- What is wrong in the piece, by offset from its first character. -/
  faults : List (Nat × Fault) := []
deriving Repr

def isBlank (c : Char) : Bool :=
  c = ' ' || c = '\t' || c = '\r' || c = '\n' || c = '\ufeff' || c = '\u00a0'

def startsName (d : Dialect) (c : Char) : Bool :=
  c = '_' || isLetter c || (d = .script && (c = '$' || c = '#'))

def continuesName (d : Dialect) (c : Char) : Bool :=
  c = '_' || isLetterOrNumber c || (d = .script && c = '$')

/-- Longer punctuators stand before their own beginnings. -/
def punctuators : Dialect → List String
  | .script => [
    ">>>=", "...", "===", "!==", "**=", "<<=", ">>=", ">>>", "&&=", "||=", "??=", "=>", "==",
    "!=", "<=", ">=", "&&", "||", "??", "?.", "++", "--", "+=", "-=", "*=", "/=", "%=", "&=",
    "|=", "^=", "**", "<<", ">>"]
  | .python => [
    "**=", "//=", ">>=", "<<=", "...", "->", ":=", "==", "!=", "<=", ">=", "**", "//", "<<", ">>",
    "+=", "-=", "*=", "/=", "%=", "&=", "|=", "^=", "@="]

def startsWithDigit : List Char → Bool
  | c :: _ => c.isDigit
  | [] => false

/-- `a?.5:b` is a conditional, not an optional member. -/
def isConditionalPoint (p : List Char) (rest : List Char) : Bool :=
  p = ['?', '.'] && startsWithDigit (rest.drop 2)

/-- Length of the punctuator in front; a character that begins none stands alone. -/
def punctLength (d : Dialect) (cs : List Char) : Nat :=
  match (punctuators d).find? fun p => p.toList.isPrefixOf cs with
  | some p => if isConditionalPoint p.toList cs then 1 else p.length
  | none => 1

/-- Digits, letters, points and underscores, and the sign of an exponent. -/
def numberLength (hex : Bool) : List Char → Nat
  | [] => 0
  | [c] => if c.isAlphanum || c = '_' || c = '.' then 1 else 0
  | c :: s :: r =>
    if c.isAlphanum || c = '_' || c = '.' then
      if !hex && (c = 'e' || c = 'E') && (s = '+' || s = '-') then 2 + numberLength hex r
      else 1 + numberLength hex (s :: r)
    else 0

def isHex (cs : List Char) : Bool := ['0', 'x'].isPrefixOf cs || ['0', 'X'].isPrefixOf cs

/-- A regular expression behind its opening slash, flags included, if it ends on its line. -/
def regexLength (inClass : Bool) : List Char → Option Nat
  | [] => none
  | '\n' :: _ => none
  | ['\\'] => none
  | '\\' :: c :: r => if c = '\n' then none else (regexLength inClass r).map (2 + ·)
  | '[' :: r => (regexLength true r).map (1 + ·)
  | ']' :: r => (regexLength false r).map (1 + ·)
  | '/' :: r =>
    if inClass then (regexLength inClass r).map (1 + ·)
    else some (1 + (r.takeWhile Char.isAlpha).length)
  | _ :: r => (regexLength inClass r).map (1 + ·)

/-- Letters in front of a quote that mark a string, one or two of them. -/
def stringMark (cs : List Char) : Nat :=
  let mark := cs.takeWhile fun c => "rRbBfFuU".toList.contains c
  match cs.drop mark.length with
  | c :: _ => if mark.length ≤ 2 && (c = '"' || c = '\'') then mark.length else 0
  | [] => 0

/-- A string literal behind its opening quote; three quotes in a row open one of many lines. -/
def pythonString (quote : Char) (r : List Char) : Extent × Fault :=
  if startsWithPair quote r then
    ((tripleQuoted quote (r.drop 2)).behind 2, .unterminatedTripleString)
  else (quoted quote r, .unterminatedString)

/-- The lexeme of a literal whose extent behind its first `skipped + 1` characters is `e`. -/
def ofExtent (piece : Piece) (skipped : Nat) (e : Extent) (fault : Fault) : Lexeme :=
  ⟨piece, skipped + e.length,
    (e.behind (skipped + 1)).inner ++ if e.closed then [] else [(0, fault)]⟩

/-- The token that starts with `c`. -/
def tokenLexeme (d : Dialect) (regexFits : Bool) (c : Char) (r : List Char) : Lexeme :=
  let name : Lexeme := ⟨.token .ident, (r.takeWhile (continuesName d)).length, []⟩
  let number : Lexeme := ⟨.token .number, numberLength (isHex (c :: r)) (c :: r) - 1, []⟩
  let punct : Lexeme := ⟨.token .punct, punctLength d (c :: r) - 1, []⟩
  let mark := if d = .python then stringMark (c :: r) else 0
  if mark ≠ 0 then
    let (e, fault) := pythonString ((c :: r).getD mark '"') (r.drop mark)
    ofExtent (.token .string) mark e fault
  else if c = '"' || c = '\'' then
    match d with
    | .script => ofExtent (.token .string) 0 (quoted c r) .unterminatedString
    | .python =>
      let (e, fault) := pythonString c r
      ofExtent (.token .string) 0 e fault
  else if c = '\x60' && d = .script then
    ofExtent (.token .template) 0 (template r) .unterminatedTemplate
  else if c.isDigit || (c = '.' && startsWithDigit r) then number
  else if c = '/' && d = .script && regexFits then
    match regexLength false r with
    | some n => ⟨.token .regex, n, []⟩
    | none => punct
  else if startsName d c then name
  else punct

/-- The piece that starts with `c`; `regexFits` says whether a slash may open a regular expression. -/
def lexeme (d : Dialect) (regexFits : Bool) (c : Char) (r : List Char) : Lexeme :=
  if isBlank c then ⟨.blank, 0, []⟩
  else match d, c, r with
  | .python, '\\', '\n' :: _ => ⟨.joint, 1, []⟩
  | .python, '\\', ['\r'] => ⟨.joint, 1, []⟩
  | .python, '\\', '\r' :: _ :: _ => ⟨.joint, 2, []⟩
  | .python, '#', r => ⟨.comment, lineComment r, []⟩
  | .script, '/', '/' :: r => ⟨.comment, 1 + lineComment r, []⟩
  | .script, '/', '*' :: r => ofExtent .comment 1 (blockComment r) .unterminatedComment
  | d, c, r => tokenLexeme d regexFits c r

end Scratchpad.Token
