import Scratchpad.Token.Outline

/-! Where statements of a script start and end, line breaks being the separators that they are. -/
namespace Scratchpad.Script

/-- Words that start a statement which is no expression. -/
def statementWords : List String := [
  "var", "let", "const", "function", "class", "if", "else", "for", "while", "do", "switch",
  "try", "catch", "finally", "return", "throw", "break", "continue", "import", "export",
  "debugger", "with", "async", "case", "default", "interface", "enum", "declare"]

/-- Words that never name a value. -/
def keywords : List String := [
  "var", "let", "const", "function", "class", "if", "else", "for", "while", "do", "switch",
  "try", "catch", "finally", "return", "throw", "break", "continue", "import", "export",
  "debugger", "with", "case", "default", "new", "delete", "typeof", "instanceof", "in", "of",
  "void", "yield", "await", "extends"]

def assignmentOperators : List String := [
  "=", "+=", "-=", "*=", "/=", "%=", "**=", "<<=", ">>=", ">>>=", "&=", "|=", "^=", "&&=",
  "||=", "??="]

def isKeyword (text : String) : Bool := keywords.contains text

/-- A token that cannot end an expression. -/
def isOpenEnded (kind : Option Token.Kind) (text : String) : Bool :=
  match kind with
  | some .punct => !([")", "]", "\x7d", "++", "--", ";", "!"].contains text)
  | some .ident =>
    ["instanceof", "in", "of", "typeof", "new", "void", "delete", "extends"].contains text
  | _ => false

/-- A token that carries on the expression of the line before. -/
def carriesOn (kind : Option Token.Kind) (text : String) : Bool :=
  match kind with
  | some .punct => !(["\x7b", "!", "~", "++", "--", "...", "#", "@", ";"].contains text)
  | some .template => true
  | some .ident => ["instanceof", "in", "of"].contains text
  | _ => false

end Scratchpad.Script

namespace Scratchpad.Outline

variable (o : Outline)

open Script

def isOpenEnded (i : Nat) : Bool := Script.isOpenEnded (o.kind? i) (o.text i)

/-- Whether the token at `next` belongs to the statement that has come as far as `last`. -/
def continues (last next : Nat) : Bool :=
  !o.newlineBefore next || o.isOpenEnded last || carriesOn (o.kind? next) (o.text next)

def startsStatement (i : Nat) : Bool :=
  i = 0 || o.isAny (i - 1) [";", "\x7b", "\x7d"] || !o.continues (i - 1) i

/-- The index behind the statement that starts at `start`, bracket groups taken whole. -/
def pastStatement (start : Nat) : { j : Nat // start < j } :=
  if o.is start ";" then ⟨start + 1, Nat.lt_succ_self start⟩
  else
    match o.pastOrAll start with
    | ⟨next, hn⟩ =>
      if _h : next < o.size then
        if o.continues (next - 1) next then
          match pastStatement next with
          | ⟨rest, hr⟩ => ⟨rest, Nat.lt_trans hn hr⟩
        else ⟨next, hn⟩
      else ⟨next, hn⟩
termination_by o.size - start
decreasing_by omega

/-- The last token of the statement that starts at `start`. -/
def statementEnd (start : Nat) : Nat := (o.pastStatement start).val - 1

/-- Statements from `i` on, as first and last token. -/
def statementsFrom (i : Nat) : List (Nat × Nat) :=
  if _h : i < o.size then
    match o.pastStatement i with
    | ⟨next, _⟩ => (i, next - 1) :: statementsFrom next
  else []
termination_by o.size - i
decreasing_by omega

def topLevelStatements : List (Nat × Nat) := o.statementsFrom 0

/-- Whether the brackets among the tokens in a list open and close in turn. -/
def balancedFrom (depth : Nat) : List Nat → Bool
  | [] => depth = 0
  | i :: is =>
    if o.isOpener i then balancedFrom (depth + 1) is
    else if Token.isCloser (o.text i) then
      match depth with
      | 0 => false
      | d + 1 => balancedFrom d is
    else balancedFrom depth is

def balanced (first last : Nat) : Bool := o.balancedFrom 0 (upTo first (last + 1))

/-- The last token of a simple statement: its semicolon, or the token before a line break that ends
it or before the end of the block around it. -/
def simpleStatementEnd (start i : Nat) (h : start ≤ i) : Option { e : Nat // start ≤ e } :=
  if o.is i ";" then some ⟨i, h⟩
  else if Token.isCloser (o.text i) then
    if hi : start < i then some ⟨i - 1, Nat.le_sub_one_of_lt hi⟩ else none
  else
    let last? : Option { e : Nat // i ≤ e } :=
      if o.isOpener i then (o.closing? i).map fun ⟨c, hc⟩ => ⟨c, Nat.le_of_lt hc⟩
      else some ⟨i, Nat.le_refl i⟩
    match last? with
    | none => none
    | some ⟨last, hl⟩ =>
      if hs : last + 1 < o.size then
        if o.continues last (last + 1) then
          simpleStatementEnd start (last + 1) (by omega)
        else some ⟨last, Nat.le_trans h hl⟩
      else some ⟨last, Nat.le_trans h hl⟩
termination_by o.size - i
decreasing_by omega

/-- The bracket that ends the head of a loop. -/
def loopHeadEnd (keyword : Nat) : Option { c : Nat // keyword < c } :=
  if o.is keyword "for" && o.is (keyword + 1) "await" then
    (o.closingOf? (keyword + 2) "(").map fun ⟨c, h⟩ => ⟨c, by omega⟩
  else (o.closingOf? (keyword + 1) "(").map fun ⟨c, h⟩ => ⟨c, by omega⟩

/-- The `while` behind a loop body and the last token of the loop. -/
def doLoopTail (bodyEnd : Nat) : Option (Nat × { e : Nat // bodyEnd < e }) :=
  if o.is (bodyEnd + 1) "while" then
    match o.closingOf? (bodyEnd + 2) "(" with
    | some ⟨c, h⟩ =>
      if o.is (c + 1) ";" then some (bodyEnd + 1, ⟨c + 1, by omega⟩)
      else some (bodyEnd + 1, ⟨c, by omega⟩)
    | none => none
  else none

/-- The last token of a `try` statement. -/
def tryEnd (start : Nat) : Option { e : Nat // start ≤ e } := do
  let ⟨tried, h₁⟩ ← o.closingOf? (start + 1) "\x7b"
  let ⟨caught, h₂⟩ : { e : Nat // start ≤ e } ←
    if o.is (tried + 1) "catch" then
      if o.is (tried + 2) "(" then do
        let ⟨c, h⟩ ← o.closing? (tried + 2)
        let ⟨e, h'⟩ ← o.closingOf? (c + 1) "\x7b"
        some ⟨e, by omega⟩
      else do
        let ⟨e, h'⟩ ← o.closingOf? (tried + 2) "\x7b"
        some ⟨e, by omega⟩
    else some ⟨tried, by omega⟩
  if o.is (caught + 1) "finally" then do
    let ⟨e, h⟩ ← o.closingOf? (caught + 2) "\x7b"
    some ⟨e, by omega⟩
  else some ⟨caught, h₂⟩

/-- The last token of the statement that starts at `start`, the statements it governs included. -/
def statementSpan (start : Nat) : Option { e : Nat // start ≤ e } :=
  if hs : start < o.size then
    match o.text start with
    | "\x7b" => (o.closing? start).map fun ⟨c, h⟩ => ⟨c, by omega⟩
    | ";" => some ⟨start, Nat.le_refl start⟩
    | "if" =>
      match o.closingOf? (start + 1) "(" with
      | none => none
      | some ⟨c, hc⟩ =>
        match statementSpan (c + 1) with
        | none => none
        | some ⟨e, he⟩ =>
          if o.is (e + 1) "else" then
            (statementSpan (e + 2)).map fun ⟨e', he'⟩ => ⟨e', by omega⟩
          else some ⟨e, by omega⟩
    | "for" | "while" =>
      match o.loopHeadEnd start with
      | none => none
      | some ⟨c, hc⟩ => (statementSpan (c + 1)).map fun ⟨e, he⟩ => ⟨e, by omega⟩
    | "with" =>
      match o.closingOf? (start + 1) "(" with
      | none => none
      | some ⟨c, hc⟩ => (statementSpan (c + 1)).map fun ⟨e, he⟩ => ⟨e, by omega⟩
    | "do" =>
      match statementSpan (start + 1) with
      | none => none
      | some ⟨e, he⟩ => (o.doLoopTail e).map fun (_, ⟨e', he'⟩) => ⟨e', by omega⟩
    | "switch" =>
      match o.closingOf? (start + 1) "(" with
      | none => none
      | some ⟨c, hc⟩ => (o.closingOf? (c + 1) "\x7b").map fun ⟨e, he⟩ => ⟨e, by omega⟩
    | "try" => o.tryEnd start
    | head =>
      if o.isIdent start && o.is (start + 1) ":" && !isKeyword head then
        (statementSpan (start + 2)).map fun ⟨e, he⟩ => ⟨e, by omega⟩
      else o.simpleStatementEnd start start (Nat.le_refl start)
  else none
termination_by o.size - start
decreasing_by all_goals omega

end Scratchpad.Outline
