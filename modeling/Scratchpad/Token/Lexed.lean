import Scratchpad.Token.Lexeme

/-! A program text cut into tokens and comments. Cutting never fails; it notes what is wrong. -/
namespace Scratchpad

open Text (Position Diagnostic)

structure Lexed where
  source : List Char
  tokens : Array Token := #[]
  comments : List Comment := []
  diagnostics : List Diagnostic := []

namespace Lexed

/-- Words behind which a slash opens a regular expression. -/
def regexWords : List String := [
  "return", "typeof", "instanceof", "in", "of", "new", "delete", "void", "throw", "case", "do",
  "else", "yield", "await"]

/-- A slash divides if the token before it can end a value. -/
def regexFits (before : Option Token) : Bool :=
  match before with
  | none => true
  | some t =>
    match t.kind with
    | .punct => t.text != ")" && t.text != "]" && t.text != "\x7d"
    | .ident => regexWords.contains t.text
    | _ => false

/-- A cut in progress; comments and diagnostics are collected last one first. -/
structure Cut where
  offset : Nat := 0
  position : Position := .first
  /-- A line ended since the last token. -/
  lineEnded : Bool := true
  tokens : Array Token := #[]
  comments : List Comment := []
  diagnostics : List Diagnostic := []

namespace Cut

/-- The faults of a piece that starts at `p`, with their places. -/
def locate (p : Position) (piece : List Char) (faults : List (Nat × Text.Fault)) :
    List Diagnostic :=
  faults.map fun (n, fault) => { p.after (piece.take n) with fault }

/-- Takes the piece `cs`, described by `x`, into account. -/
def take (s : Cut) (x : Token.Lexeme) (cs : List Char) : Cut :=
  let s' := { s with
    offset := s.offset + cs.length
    position := s.position.after cs
    diagnostics := (locate s.position cs x.faults).reverse ++ s.diagnostics }
  match x.piece with
  | .blank => { s' with lineEnded := s.lineEnded || cs.contains '\n' }
  | .joint => s'
  | .comment =>
    let comment := ⟨.ofList cs, s.offset, s'.offset, s.position.line⟩
    { s' with lineEnded := s.lineEnded || cs.contains '\n', comments := comment :: s.comments }
  | .token kind =>
    let token := ⟨kind, .ofList cs, s.offset, s'.offset, s.position.line, s.position.column,
      s.lineEnded⟩
    { s' with lineEnded := false, tokens := s.tokens.push token }

/-- Cuts `cs` to its end. -/
def run (d : Dialect) (s : Cut) (cs : List Char) : Cut :=
  match cs with
  | [] => s
  | c :: r =>
    let x := Token.lexeme d (regexFits s.tokens.back?) c r
    run d (s.take x (c :: r.take x.more)) (r.drop x.more)
termination_by cs.length
decreasing_by simp only [List.length_drop, List.length_cons]; omega

end Cut

end Lexed

def tokenize (d : Dialect) (source : List Char) : Lexed :=
  let s := Lexed.Cut.run d {} source
  ⟨source, s.tokens, s.comments.reverse, s.diagnostics.reverse⟩

end Scratchpad
