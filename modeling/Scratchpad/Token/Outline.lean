import Scratchpad.Token.Bracket

/-!
A token list with its brackets matched. Tokens are named by index; asking for one that is not there
gives the empty text.
-/
namespace Scratchpad

/-- The token view that every rewriting pass reads. -/
structure Outline where
  source : List Char
  tokens : Array Token
  partners : Array (Option Nat)

def Lexed.outline (x : Lexed) : Outline := ⟨x.source, x.tokens, Token.partners x.tokens⟩

namespace Outline

variable (o : Outline) (i j : Nat)

def size : Nat := o.tokens.size

def text : String := (o.tokens[i]?.map Token.text).getD ""

def is (t : String) : Bool := o.text i == t

def isAny (ts : List String) : Bool := ts.contains (o.text i)

def kind? : Option Token.Kind := o.tokens[i]?.map Token.kind

def isIdent : Bool := o.kind? i == some .ident

def newlineBefore : Bool := (o.tokens[i]?.map Token.newlineBefore).getD false

def line : Nat := (o.tokens[i]?.map Token.line).getD 1

/-- First character of a token. -/
def start : Nat := (o.tokens[i]?.map Token.start).getD o.source.length

/-- The character behind a token. -/
def stop : Nat := (o.tokens[i]?.map Token.stop).getD o.source.length

def isOpener : Bool := Token.isOpener (o.text i)

def partner? : Option Nat := (o.partners[i]?).join

/-- The bracket that closes the one at `i`. -/
def closing? : Option { c : Nat // i < c } :=
  match o.partner? i with
  | some c => if h : i < c then some ⟨c, h⟩ else none
  | none => none

/-- The bracket that closes the one at `i`, if that is an `opener`. -/
def closingOf? (opener : String) : Option { c : Nat // i < c } :=
  if o.is i opener then o.closing? i else none

/-- The index behind the bracket group that starts at `i`, or behind the token there. -/
def past : { j : Nat // i < j } :=
  if o.isOpener i then
    match o.closing? i with
    | some ⟨c, h⟩ => ⟨c + 1, Nat.lt_succ_of_lt h⟩
    | none => ⟨i + 1, Nat.lt_succ_self i⟩
  else ⟨i + 1, Nat.lt_succ_self i⟩

/-- Like `past`, but a group that is never closed takes the rest of the text. -/
def pastOrAll : { j : Nat // i < j } :=
  if o.isOpener i && (o.closing? i).isNone then
    ⟨max o.size (i + 1), Nat.lt_of_lt_of_le (Nat.lt_succ_self i) (Nat.le_max_right _ _)⟩
  else o.past i

/-- Indices from `i` up to `j`, `j` not included. -/
def upTo : List Nat := (List.range j).drop i

/-- The first index from `i` on whose token fails the test. -/
def skipWhile (test : Nat → Bool) : Nat :=
  i + ((List.range (o.size - i)).takeWhile fun k => test (i + k)).length

/-- The place of a token, or of the last one if there is none at `i`. -/
def position : Text.Position :=
  match o.tokens[i]?.or o.tokens.back? with
  | some t => ⟨t.line, t.column⟩
  | none => .first

/-- Whether token `i + 1` follows without anything in between. -/
def touchesNext : Bool := i + 1 < o.size && o.stop i = o.start (i + 1)

end Outline

end Scratchpad
