import Scratchpad.Shell.Basic

/-! Reading scripts. -/
namespace Scratchpad.Shell

/-- A reader of something at the front of a script. -/
abbrev Reader (α : Type) := List Char → Option (α × List Char)

def isBlank (c : Char) : Bool := c = ' ' || c = '\t'

/-- Characters that end a word. -/
def endsWord (c : Char) : Bool := [' ', '\t', '\n', ';', '&', '|', '<', '>', '(', ')'].contains c

def isNameStart (c : Char) : Bool := c.isAlpha || c = '_'

def isNameChar (c : Char) : Bool := c.isAlphanum || c = '_'

/-- The script behind blanks, continued lines and a comment. -/
def skipBlanks : List Char → List Char
  | '\\' :: '\n' :: r => skipBlanks r
  | '#' :: r => r.dropWhile (· ≠ '\n')
  | c :: r => if isBlank c then skipBlanks r else c :: r
  | [] => []

/-- The script behind empty lines too. -/
def skipLines : Nat → List Char → List Char
  | 0, cs => cs
  | fuel + 1, cs =>
    match skipBlanks cs with
    | '\n' :: r => skipLines fuel r
    | r => r

def skip (cs : List Char) : List Char := skipLines (cs.length + 1) cs

/-- The word of plain letters or signs at the front, if a reserved word may stand here. -/
def keyword (cs : List Char) : String :=
  match skipBlanks cs with
  | '{' :: r => if (r.head?.map endsWord).getD true then "\x7b" else ""
  | '}' :: r => if (r.head?.map endsWord).getD true then "\x7d" else ""
  | '!' :: r => if (r.head?.map isBlank).getD false then "!" else ""
  | cs =>
    let w := cs.takeWhile Char.isAlpha
    match cs.drop w.length with
    | [] => .ofList w
    | c :: _ => if endsWord c then .ofList w else ""

def skipKeyword (w : String) (cs : List Char) : List Char := (skipBlanks cs).drop w.length

def expect? (w : String) (cs : List Char) : Option (List Char) :=
  if keyword (skip cs) = w then some (skipKeyword w (skip cs)) else none

/-- Words that end a list of commands. -/
def isCloser (w : String) : Bool :=
  ["then", "elif", "else", "fi", "do", "done", "esac", "\x7d"].contains w

/-- Whether a list of commands ends here. -/
def atEnd (cs : List Char) : Bool :=
  match cs with
  | [] => true
  | ')' :: _ => true
  | ';' :: ';' :: _ => true
  | _ => isCloser (keyword cs)

def name? (cs : List Char) : Option (String × List Char) :=
  match cs with
  | c :: r =>
    if isNameStart c then
      let n := c :: r.takeWhile isNameChar
      some (.ofList n, cs.drop n.length)
    else none
  | [] => none

/-- The name of a parameter: a variable, a digit or a sign. -/
def paramName? (cs : List Char) : Option (String × List Char) :=
  match name? cs with
  | some r => some r
  | none =>
    match cs with
    | c :: r => if c.isDigit || "?#$@*!".toList.contains c then some (.ofList [c], r) else none
    | [] => none

/-- A setting at the front of a command: its name, and the script behind the sign. -/
def setting? (cs : List Char) : Option (String × List Char) :=
  match name? cs with
  | some (n, '=' :: r) => some (n, r)
  | _ => none

/-- The start of a redirection: descriptor, direction, and the script behind. -/
def redirectionHead? (cs : List Char) : Option (Nat × Direction × List Char) :=
  let (digit, r) := match cs with
    | c :: r => if c.isDigit then (some (c.toNat - '0'.toNat), r) else (none, cs)
    | [] => (none, cs)
  match r with
  | '>' :: '>' :: r => some (digit.getD 1, .append, r)
  | '>' :: '&' :: r => some (digit.getD 1, .duplicate, r)
  | '>' :: r => some (digit.getD 1, .output, r)
  | '<' :: r => if r.head? = some '<' then none else some (digit.getD 0, .input, r)
  | _ => none

mutual

/-- The pieces of a word up to a character at which it ends. -/
def pieces (stop : Char → Bool) : Nat → Reader Word
  | 0, _ => none
  | _, [] => some ([], [])
  | fuel + 1, c :: r =>
    if stop c then some ([], c :: r)
    else do
      let (ps, r) ← match c with
        | '\'' =>
          let body := r.takeWhile (· ≠ '\'')
          some ([Piece.text body true], r.drop (body.length + 1))
        | '"' => (quotedPieces fuel r).map fun (ps, r) => (Piece.text [] true :: ps, r)
        | '\\' =>
          match r with
          | '\n' :: r => some ([], r)
          | c :: r => some ([Piece.text [c] true], r)
          | [] => some ([Piece.text ['\\'] true], [])
        | '$' => (dollar false fuel r).map fun (p, r) => ([p], r)
        | '\x60' => (backticks false fuel r).map fun (p, r) => ([p], r)
        | c => some ([Piece.text [c] false], r)
      let (rest, r) ← pieces stop fuel r
      return (ps ++ rest, r)

/-- The pieces between double quotes, behind the first of them. -/
def quotedPieces : Nat → Reader Word
  | 0, _ => none
  | _, [] => none
  | _ + 1, '"' :: r => some ([], r)
  | fuel + 1, c :: r => do
    let (p, r) ← match c with
      | '\\' =>
        match r with
        | '\n' :: r => some (Piece.text [] true, r)
        | c :: r =>
          if ['$', '\x60', '"', '\\'].contains c then some (.text [c] true, r)
          else some (.text ['\\', c] true, r)
        | [] => none
      | '$' => dollar true fuel r
      | '\x60' => backticks true fuel r
      | c => some (.text [c] true, r)
    let (rest, r) ← quotedPieces fuel r
    return (p :: rest, r)

/-- What stands behind a dollar sign. -/
def dollar (quoted : Bool) : Nat → Reader Piece
  | 0, _ => none
  | fuel + 1, '(' :: '(' :: r => do
    let (ps, r) ← pieces (· = ')') fuel r
    let ')' :: ')' :: r := r | none
    return (.arithmetic ps, r)
  | fuel + 1, '(' :: r => do
    let (c, r) ← commands fuel r
    let ')' :: r := r | none
    return (.output c quoted, r)
  | fuel + 1, '{' :: r => braces quoted fuel r
  | _ + 1, r =>
    match paramName? r with
    | some (n, r) => some (.param n .plain quoted, r)
    | none => some (.text ['$'] quoted, r)

/-- A parameter in braces, behind the first of them. -/
def braces (quoted : Bool) : Nat → Reader Piece
  | 0, _ => none
  | _ + 1, '#' :: c :: r =>
    if c = '}' then some (.param "#" .plain quoted, r)
    else do
      let (n, r) ← paramName? (c :: r)
      let '}' :: r := r | none
      return (.param n .length quoted, r)
  | fuel + 1, cs => do
    let (n, r) ← paramName? cs
    let ending (how : Word → Expansion) (r : List Char) : Option (Piece × List Char) := do
      let (w, r) ← pieces (· = '}') fuel r
      return (.param n (how w) quoted, r.drop 1)
    match r with
    | '}' :: r => some (.param n .plain quoted, r)
    | '#' :: '#' :: r => ending (.cut ⟨false, true⟩) r
    | '#' :: r => ending (.cut ⟨false, false⟩) r
    | '%' :: '%' :: r => ending (.cut ⟨true, true⟩) r
    | '%' :: r => ending (.cut ⟨true, false⟩) r
    | ':' :: '-' :: r | ':' :: '=' :: r => ending (.otherwise true) r
    | '-' :: r | '=' :: r => ending (.otherwise false) r
    | ':' :: '+' :: r => ending (.instead true) r
    | '+' :: r => ending (.instead false) r
    | _ => none

/-- A command between back quotes, behind the first of them. -/
def backticks (quoted : Bool) : Nat → Reader Piece
  | 0, _ => none
  | fuel + 1, r => do
    let body := r.takeWhile (· ≠ '\x60')
    let (c, []) ← commands fuel body | none
    return (.output c quoted, r.drop (body.length + 1))

/-- Settings, words and redirections of a simple command. -/
def simple (settings : List (String × Word)) (words : List Word) (rs : List Redirection) :
    Nat → Reader Command
  | 0, _ => none
  | fuel + 1, cs =>
    let cs := skipBlanks cs
    match redirectionHead? cs with
    | some (n, direction, r) => do
      let (target, r) ← pieces endsWord fuel (skipBlanks r)
      simple settings words (rs ++ [.mk n direction target]) fuel r
    | none =>
      match cs with
      | [] => some (.simple settings words rs, [])
      | c :: _ =>
        if endsWord c then some (.simple settings words rs, cs)
        else
          match (if words.isEmpty then setting? cs else none) with
          | some (n, r) => do
            let (w, r) ← pieces endsWord fuel r
            simple (settings ++ [(n, w)]) words rs fuel r
          | none => do
            let (w, r) ← pieces endsWord fuel cs
            simple settings (words ++ [w]) rs fuel r

/-- Redirections behind a compound command. -/
def redirections (c : Command) (rs : List Redirection) : Nat → Reader Command
  | 0, _ => none
  | fuel + 1, cs =>
    match redirectionHead? (skipBlanks cs) with
    | some (n, direction, r) => do
      let (target, r) ← pieces endsWord fuel (skipBlanks r)
      redirections c (rs ++ [.mk n direction target]) fuel r
    | none => some (if rs.isEmpty then c else .redirected c rs, cs)

/-- The rest of a condition, behind its first word. -/
def condition : Nat → Reader Command
  | 0, _ => none
  | fuel + 1, cs => do
    let (test, r) ← commands fuel cs
    let r ← expect? "then" r
    let (yes, r) ← commands fuel r
    match keyword (skip r) with
    | "elif" => do
      let (no, r) ← condition fuel (skipKeyword "elif" (skip r))
      return (.cond test yes no, r)
    | "else" => do
      let (no, r) ← commands fuel (skipKeyword "else" (skip r))
      return (.cond test yes no, ← expect? "fi" r)
    | "fi" => some (.cond test yes .nothing, skipKeyword "fi" (skip r))
    | _ => none

/-- The patterns of an arm. -/
def patterns (done : List Word) : Nat → Reader (List Word)
  | 0, _ => none
  | fuel + 1, cs => do
    let (w, r) ← pieces endsWord fuel (skipBlanks cs)
    match skipBlanks r with
    | '|' :: r => patterns (done ++ [w]) fuel r
    | ')' :: r => some (done ++ [w], r)
    | _ => none

def arms (done : List Arm) : Nat → Reader (List Arm)
  | 0, _ => none
  | fuel + 1, cs =>
    let cs := skip cs
    if keyword cs = "esac" then some (done, skipKeyword "esac" cs)
    else do
      let cs := if cs.head? = some '(' then cs.drop 1 else cs
      let (ps, r) ← patterns [] fuel cs
      let (body, r) ← commands fuel r
      match skip r with
      | ';' :: ';' :: r => arms (done ++ [.mk ps body]) fuel r
      | r => do
        let r ← expect? "esac" r
        return (done ++ [.mk ps body], r)

/-- Words up to the end of a line. -/
def wordsOfLine (done : List Word) : Nat → Reader (List Word)
  | 0, _ => none
  | fuel + 1, cs =>
    match skipBlanks cs with
    | [] => some (done, [])
    | c :: r =>
      if endsWord c then some (done, c :: r)
      else do
        let (w, r) ← pieces endsWord fuel (c :: r)
        wordsOfLine (done ++ [w]) fuel r

def forLoop : Nat → Reader Command
  | 0, _ => none
  | fuel + 1, cs => do
    let (n, r) ← name? (skipBlanks cs)
    let (ws, r) ← match keyword (skip r) with
      | "in" => wordsOfLine [] fuel (skipKeyword "in" (skip r))
      | _ => some ([[Piece.param "@" .plain true]], r)
    let r := match skipBlanks r with
      | ';' :: r => r
      | r => r
    let r ← expect? "do" r
    let (body, r) ← commands fuel r
    return (.each n ws body, ← expect? "done" r)

/-- One command. -/
def command : Nat → Reader Command
  | 0, _ => none
  | fuel + 1, cs => do
    let cs := skipBlanks cs
    let whileLoop (until_ : Bool) (r : List Char) : Option (Command × List Char) := do
      let (test, r) ← commands fuel r
      let r ← expect? "do" r
      let (body, r) ← commands fuel r
      return (.loop until_ test body, ← expect? "done" r)
    let compound (r : Option (Command × List Char)) : Option (Command × List Char) := do
      let (c, r) ← r
      redirections c [] fuel r
    match keyword cs with
    | "if" => compound (condition fuel (skipKeyword "if" cs))
    | "while" => compound (whileLoop false (skipKeyword "while" cs))
    | "until" => compound (whileLoop true (skipKeyword "until" cs))
    | "for" => compound (forLoop fuel (skipKeyword "for" cs))
    | "case" => compound (do
        let (w, r) ← pieces endsWord fuel (skipBlanks (skipKeyword "case" cs))
        let r ← expect? "in" r
        let (as, r) ← arms [] fuel r
        return (.select w as, r))
    | "\x7b" => compound (do
        let (c, r) ← commands fuel (skipKeyword "\x7b" cs)
        return (c, ← expect? "\x7d" r))
    | _ =>
      match cs with
      | '(' :: r => compound (do
          let (c, r) ← commands fuel r
          let ')' :: r := r | none
          return (.apart c, r))
      | _ =>
        match name? cs with
        | some (n, '(' :: ')' :: r) => do
          let (body, r) ← command fuel (skip r)
          return (.define n body, r)
        | _ => simple [] [] [] fuel cs

/-- Commands joined by bars. -/
def pipeline : Nat → Reader Command
  | 0, _ => none
  | fuel + 1, cs =>
    if keyword cs = "!" then
      (pipeline fuel (skipKeyword "!" cs)).map fun (c, r) => (.negation c, r)
    else do
      let (c, r) ← command fuel cs
      match skipBlanks r with
      | '|' :: '|' :: _ => some (c, r)
      | '|' :: r => (pipeline fuel (skip r)).map fun (d, r) => (.pipe c d, r)
      | _ => some (c, r)

/-- Pipelines joined by double signs, of which the first ones are known. -/
def chain (c : Command) : Nat → Reader Command
  | 0, _ => none
  | fuel + 1, cs =>
    match skipBlanks cs with
    | '&' :: '&' :: r => do
      let (d, r) ← pipeline fuel (skip r)
      chain (.both c d) fuel r
    | '|' :: '|' :: r => do
      let (d, r) ← pipeline fuel (skip r)
      chain (.either c d) fuel r
    | _ => some (c, cs)

/-- A list of commands up to its end. -/
def commands : Nat → Reader Command
  | 0, _ => none
  | fuel + 1, cs =>
    let cs := skip cs
    if atEnd cs then some (.nothing, cs)
    else do
      let (c, r) ← pipeline fuel cs
      let (c, r) ← chain c fuel r
      match skipBlanks r with
      | ';' :: ';' :: r => some (c, ';' :: ';' :: r)
      | ';' :: r | '\n' :: r => (commands fuel r).map fun (d, r) => (.sequence c d, r)
      | r => if atEnd r then some (c, r) else none

end

/-- A whole script. -/
def read? (script : String) : Option Command :=
  let cs := script.toList
  match commands (16 * cs.length + 64) cs with
  | some (c, []) => some c
  | _ => none

end Scratchpad.Shell
