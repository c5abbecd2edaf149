import Scratchpad.Text.Diagnostic

/-!
How far comments, literals, names and numbers reach. Every function is given the characters behind
the ones that announced the construct, and counts the characters that still belong to it.
-/
namespace Scratchpad.Token

open Text (Fault)

/-- How far a literal reaches, whether its end was found, and what is wrong inside it. -/
structure Extent where
  length : Nat
  closed : Bool
  /-- Faults of literals nested in this one, by offset. -/
  inner : List (Nat × Fault) := []

namespace Extent

/-- The same extent with `n` more characters in front. -/
def behind (n : Nat) (e : Extent) : Extent :=
  { e with length := n + e.length, inner := e.inner.map fun (at_, f) => (n + at_, f) }

/-- `e` begins at offset `n` and `rest` goes on behind it; `fault` is reported if `e` is open. -/
def thenFrom (n : Nat) (e : Extent) (fault : Fault) (rest : Extent) : Extent :=
  let own := if e.closed then [] else [(n, fault)]
  { rest with inner := e.inner ++ own ++ rest.inner }

end Extent

/-- A quoted literal on one line. A backslash hides the character behind it, a line feed included. -/
def quoted (quote : Char) : List Char → Extent
  | [] => ⟨0, false, []⟩
  | '\n' :: _ => ⟨0, false, []⟩
  | ['\\'] => ⟨1, false, []⟩
  | '\\' :: _ :: r => (quoted quote r).behind 2
  | c :: r => if c = quote then ⟨1, true, []⟩ else (quoted quote r).behind 1

def startsWithPair (quote : Char) : List Char → Bool
  | c :: d :: _ => c = quote && d = quote
  | _ => false

/-- A literal closed by three quotes in a row. -/
def tripleQuoted (quote : Char) : List Char → Extent
  | [] => ⟨0, false, []⟩
  | ['\\'] => ⟨1, false, []⟩
  | '\\' :: _ :: r => (tripleQuoted quote r).behind 2
  | c :: r =>
    if c = quote && startsWithPair quote r then ⟨3, true, []⟩ else (tripleQuoted quote r).behind 1

def lineLength (cs : List Char) : Nat := (cs.takeWhile (· ≠ '\n')).length

/-- The rest of the line without the carriage returns at its end. -/
def lineComment (cs : List Char) : Nat :=
  ((cs.takeWhile (· ≠ '\n')).reverse.dropWhile (· = '\r')).length

/-- Through the first star and slash. -/
def blockComment : List Char → Extent
  | [] => ⟨0, false, []⟩
  | '*' :: '/' :: _ => ⟨2, true, []⟩
  | _ :: r => (blockComment r).behind 1

mutual

/-- A template literal behind its opening back quote. -/
def template (cs : List Char) : Extent :=
  match cs with
  | [] => ⟨0, false, []⟩
  | ['\\'] => ⟨1, false, []⟩
  | '\\' :: _ :: r => (template r).behind 2
  | '\x60' :: _ => ⟨1, true, []⟩
  | '$' :: '\x7b' :: r =>
    let hole := substitution 0 r
    if hole.closed then
      let rest := template (r.drop hole.length)
      { rest with
        length := 2 + hole.length + rest.length
        inner := (hole.behind 2).inner ++ (rest.behind (2 + hole.length)).inner }
    else hole.behind 2
  | _ :: r => (template r).behind 1
termination_by cs.length
decreasing_by all_goals grind

/-- The code in a template literal up to the brace that ends it, `depth` braces being open inside. -/
def substitution (depth : Nat) (cs : List Char) : Extent :=
  match cs with
  | [] => ⟨0, false, []⟩
  | '\x7b' :: r => (substitution (depth + 1) r).behind 1
  | '\x7d' :: r =>
    match depth with
    | 0 => ⟨1, true, []⟩
    | d + 1 => (substitution d r).behind 1
  | '\x60' :: r =>
    let e := (template r).behind 1
    .thenFrom 0 e .unterminatedTemplate ((substitution depth (r.drop (e.length - 1))).behind e.length)
  | '/' :: '/' :: r =>
    let n := lineLength r
    (substitution depth (r.drop n)).behind (n + 2)
  | '/' :: '*' :: r =>
    let e := (blockComment ('*' :: r)).behind 1
    (substitution depth (r.drop (e.length - 2))).behind e.length
  | c :: r =>
    if c = '"' || c = '\'' then
      let e := (quoted c r).behind 1
      .thenFrom 0 e .unterminatedString ((substitution depth (r.drop (e.length - 1))).behind e.length)
    else (substitution depth r).behind 1
termination_by cs.length
decreasing_by all_goals grind

end

end Scratchpad.Token
