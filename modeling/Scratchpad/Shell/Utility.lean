import Scratchpad.Shell.State

/-! The commands that a script can use. -/
namespace Scratchpad.Shell

/-! ### Escapes -/

def octalDigit? (c : Char) : Option Nat :=
  if '0' ≤ c && c ≤ '7' then some (c.toNat - '0'.toNat) else none

/-- A number of up to so many octal digits. -/
def octal (limit : Nat) (cs : List Char) : Nat × List Char :=
  let ds := (cs.take limit).takeWhile fun c => (octalDigit? c).isSome
  (ds.foldl (fun n c => n * 8 + (octalDigit? c).getD 0) 0, cs.drop ds.length)

def letterEscape? : Char → Option Char
  | 'a' => some '\x07'
  | 'b' => some '\x08'
  | 'f' => some '\x0c'
  | 'n' => some '\n'
  | 'r' => some '\r'
  | 't' => some '\t'
  | 'v' => some '\x0b'
  | '\\' => some '\\'
  | _ => none

/-- Replaces escapes; octal numbers follow a zero if `zero` is set. A `c` ends the text, which the
flag tells. -/
def unescape (zero : Bool) (done : List Char) : Nat → List Char → List Char × Bool
  | 0, _ => (done.reverse, false)
  | _, [] => (done.reverse, false)
  | fuel + 1, '\\' :: c :: r =>
    if c = 'c' && zero then (done.reverse, true)
    else if zero && c = '0' then
      let (n, r) := octal 3 r
      unescape zero (rawByte n :: done) fuel r
    else if !zero && (octalDigit? c).isSome then
      let (n, r) := octal 3 (c :: r)
      unescape zero (rawByte n :: done) fuel r
    else if !zero && c = '"' then unescape zero ('"' :: done) fuel r
    else
      match letterEscape? c with
      | some e => unescape zero (e :: done) fuel r
      | none => unescape zero (c :: '\\' :: done) fuel r
  | fuel + 1, c :: r => unescape zero (c :: done) fuel r

def unescaped (zero : Bool) (cs : List Char) : List Char × Bool :=
  unescape zero [] (cs.length + 1) cs

def echo (args : List String) (s : State) : State :=
  let (newline, args) := match args with
    | "-n" :: args => (false, args)
    | args => (true, args)
  let (text, cutShort) := unescaped true (" ".intercalate args).toList
  s.put (if newline && !cutShort then text ++ ['\n'] else text)

/-! ### Formats -/

def int? (s : String) : Option Int :=
  match s.toList with
  | '-' :: ds => (String.ofList ds).toNat?.map fun n => -(n : Int)
  | '+' :: ds => (String.ofList ds).toNat?.map Int.ofNat
  | ds => (String.ofList ds).toNat?.map Int.ofNat

/-- Fills a text up with blanks. -/
def pad (left : Bool) (width : Nat) (cs : List Char) : List Char :=
  let blanks := List.replicate (width - cs.length) ' '
  if left then cs ++ blanks else blanks ++ cs

/-- One value of a format. -/
def formatValue (kind : Char) (arg : String) : Option (List Char) :=
  match kind with
  | 's' => some arg.toList
  | 'b' => some (unescaped true arg.toList).1
  | 'c' => some (arg.toList.take 1)
  | 'd' | 'i' | 'u' => some (toString ((int? arg).getD 0)).toList
  | 'x' => some (Nat.toDigits 16 ((int? arg).getD 0).toNat)
  | 'o' => some (Nat.toDigits 8 ((int? arg).getD 0).toNat)
  | _ => none

/-- Goes through a format once: the text, and the arguments that are left. -/
def formatOnce (done : List Char) : Nat → List Char → List String → List Char × List String
  | 0, _, args => (done.reverse, args)
  | _, [], args => (done.reverse, args)
  | fuel + 1, '%' :: '%' :: r, args => formatOnce ('%' :: done) fuel r args
  | fuel + 1, '%' :: r, args =>
    let (left, r) := match r with
      | '-' :: r => (true, r)
      | r => (false, r)
    let digits := r.takeWhile Char.isDigit
    match r.drop digits.length with
    | kind :: r =>
      match formatValue kind (args.headD "") with
      | some cs =>
        let width := (String.ofList digits).toNat?.getD 0
        formatOnce ((pad left width cs).reverse ++ done) fuel r args.tail
      | none => formatOnce done fuel r args
    | [] => (done.reverse, args)
  | fuel + 1, c :: r, args => formatOnce (c :: done) fuel r args

/-- Uses a format again as long as it takes arguments and there are any. -/
def formatAll (format : List Char) : Nat → List String → List Char
  | 0, _ => []
  | fuel + 1, args =>
    let (text, rest) := formatOnce [] (format.length + 1) format args
    if rest.isEmpty || rest.length = args.length then text
    else text ++ formatAll format fuel rest

def printf (args : List String) (s : State) : State :=
  match args with
  | [] => s.setStatus 2
  | format :: args =>
    s.put (formatAll (unescaped false format.toList).1 (args.length + 1) args)

/-! ### Tests -/

def testBinary (a op b : String) : Option Bool :=
  let compare (f : Int → Int → Bool) : Option Bool := do return f (← int? a) (← int? b)
  match op with
  | "=" => some (a = b)
  | "!=" => some (a ≠ b)
  | "-eq" => compare (· = ·)
  | "-ne" => compare (· ≠ ·)
  | "-lt" => compare (· < ·)
  | "-le" => compare (· ≤ ·)
  | "-gt" => compare (· > ·)
  | "-ge" => compare (· ≥ ·)
  | _ => none

def testUnary (s : State) (op a : String) : Option Bool :=
  match op with
  | "-n" => some (a ≠ "")
  | "-z" => some (a = "")
  | "-e" => some (s.folder.isThere s.place a)
  | "-f" | "-r" => some (match s.folder.find s.place a with
    | .file _ => true
    | _ => false)
  | "-d" => some (match s.folder.find s.place a with
    | .folder => true
    | _ => false)
  | _ => none

/-- Whether a test holds; none if it makes no sense. -/
def test (s : State) : List String → Option Bool
  | [] => some false
  | "!" :: args => (test s args).map not
  | [a] => some (a ≠ "")
  | [op, a] => testUnary s op a
  | [a, op, b] => testBinary a op b
  | _ => none

/-! ### Input -/

/-- The next line of the input: the line, whether it is whole, and the state behind it. None if it has
not come yet. -/
def takeLine? (s : State) : Option (List Char × Bool × State) :=
  let line := s.input.takeWhile (· ≠ '\n')
  match s.input.drop line.length with
  | _ :: rest => some (line, true, { s with input := rest })
  | [] => if s.ended then some (line, false, { s with input := [] }) else none

/-- Takes backslashes away; the flag tells whether the line goes on behind its end. -/
def unslash : List Char → List Char × Bool
  | [] => ([], false)
  | ['\\'] => ([], true)
  | '\\' :: c :: r => let (cs, more) := unslash r; (c :: cs, more)
  | c :: r => let (cs, more) := unslash r; (c :: cs, more)

/-- Lines that belong together because of backslashes at their ends. -/
def takeLogicalLine? : Nat → State → Option (List Char × Bool × State)
  | 0, _ => none
  | fuel + 1, s => do
    let (line, whole, s) ← takeLine? s
    let (cs, more) := unslash line
    if more && whole then
      let (rest, whole, s) ← takeLogicalLine? fuel s
      return (cs ++ rest, whole, s)
    else return (cs, whole, s)

def isSpace (seps : List Char) (c : Char) : Bool := seps.contains c && c.isWhitespace

def trimEnd (seps : List Char) (cs : List Char) : List Char :=
  (cs.reverse.dropWhile (isSpace seps)).reverse

/-- Shares a line out among some values; the last one gets all that is left. -/
def share (seps : List Char) : List String → List Char → State → State
  | [], _, s => s
  | [n], cs, s => s.assign n (.ofList (trimEnd seps (cs.dropWhile (isSpace seps))))
  | n :: ns, cs, s =>
    let cs := cs.dropWhile (isSpace seps)
    let field := cs.takeWhile fun c => !seps.contains c
    let rest := (cs.drop field.length).dropWhile (isSpace seps)
    let rest := match rest with
      | c :: r => if seps.contains c then r else c :: r
      | [] => []
    share seps ns rest (s.assign n (.ofList field))

/-- Reads a line into values. -/
def readLine (args : List String) (s : State) : Flow × State :=
  let raw := args.contains "-r"
  let names := args.filter fun a => !a.startsWith "-"
  let names := if names.isEmpty then ["REPLY"] else names
  match (if raw then takeLine? s else takeLogicalLine? (s.input.length + 1) s) with
  | none => (.starved, s)
  | some (line, whole, s) =>
    (.next, (share s.separators names line s).setStatus (if whole then 0 else 1))

/-- All of the input, once it has ended. -/
def takeAll (s : State) (f : List Char → State → State) : Flow × State :=
  if s.ended then (.next, f s.input { s with input := [] }) else (.starved, s)

def cat (args : List String) (s : State) : Flow × State :=
  if args.isEmpty then takeAll s fun cs s => (s.put cs).setStatus 0
  else
    (.next, args.foldl (fun s path =>
      match s.folder.read s.place path with
      | .ok text => s.put text.toList
      | .error _ => s.setStatus 1) (s.setStatus 0))

/-- The characters that a set names, with ranges and escapes. -/
def characterSet : List Char → List Char
  | a :: '-' :: b :: r =>
    ((List.range (b.toNat + 1 - a.toNat)).map fun n => Char.ofNat (a.toNat + n)) ++ characterSet r
  | c :: r => c :: characterSet r
  | [] => []

def readSet (s : String) : List Char := characterSet (unescaped false s.toList).1

def translate (sources targets : List Char) (c : Char) : Char :=
  match sources.findIdx? (· = c) with
  | some n => (targets[n]?).getD (targets.getLast?.getD c)
  | none => c

def tr (args : List String) (s : State) : Flow × State :=
  takeAll s fun cs s =>
    match args with
    | ["-d", set] => (s.put (cs.filter fun c => !(readSet set).contains c)).setStatus 0
    | [a, b] => (s.put (cs.map (translate (readSet a) (readSet b)))).setStatus 0
    | _ => s.setStatus 1

/-- Lines with their line feeds; the last one may lack it. -/
def linesOf : List Char → List (List Char)
  | [] => []
  | '\n' :: cs => ['\n'] :: linesOf cs
  | c :: cs =>
    match linesOf cs with
    | [] => [[c]]
    | l :: ls => (c :: l) :: ls

/-- How many lines are asked for. -/
def lineCount : List String → Nat
  | "-n" :: n :: _ => n.toNat?.getD 10
  | n :: _ => (String.ofList (n.toList.filter Char.isDigit)).toNat?.getD 10
  | [] => 10

/-- Puts out some lines of the input. -/
def pick (choose : List (List Char) → List (List Char)) (s : State) : Flow × State :=
  takeAll s fun cs s => (s.put (choose (linesOf cs)).flatten).setStatus 0

def head (args : List String) : State → Flow × State := pick (·.take (lineCount args))

def tail (args : List String) : State → Flow × State :=
  pick fun ls => ls.drop (ls.length - lineCount args)

def countLines (s : State) : Flow × State :=
  takeAll s fun cs s =>
    let count := cs.count '\n'
    (s.put s!"{count}\n".toList).setStatus 0

/-- Numbers from one bound to another, a line for each. -/
def seq (args : List String) (s : State) : State :=
  let lines (a b : Nat) : String :=
    String.join ((List.range (b + 1 - a)).map fun n => s!"{a + n}\n")
  match args.mapM String.toNat? with
  | some [b] => (s.put (lines 1 b).toList).setStatus 0
  | some [a, b] => (s.put (lines a b).toList).setStatus 0
  | _ => s.setStatus 1

/-! ### Time and signals -/

/-- A span in seconds, minutes, hours or days, with a fraction. -/
def span? (s : String) : Option Duration :=
  if s = "infinity" then some (.ofSeconds (Nat.pow 2 40))
  else
    let cs := s.toList
    let (cs, unit) := match cs.getLast? with
      | some 's' => (cs.dropLast, 1)
      | some 'm' => (cs.dropLast, 60)
      | some 'h' => (cs.dropLast, 3600)
      | some 'd' => (cs.dropLast, 86400)
      | _ => (cs, 1)
    let whole := cs.takeWhile Char.isDigit
    let fraction := (cs.drop whole.length).drop 1
    let digits := whole ++ fraction
    if digits.isEmpty || !digits.all Char.isDigit then none
    else
      (String.ofList digits).toNat?.map fun n =>
        ⟨n * unit * Duration.perSecond / Nat.pow 10 fraction.length⟩

def sleep (args : List String) (s : State) : State :=
  match args.mapM span? with
  | some ds => if ds.isEmpty then s.setStatus 1 else (ds.foldl State.pause s).setStatus 0
  | none => s.setStatus 1

/-- A signal to the script itself ends it; other processes are not known. -/
def kill (args : List String) (s : State) : Flow × State :=
  match args.getLast? with
  | some target =>
    if target = State.processNumber && args.head? ≠ some "-0" then (.killed, s)
    else (.next, s.setStatus (if target = State.processNumber then 0 else 1))
  | none => (.next, s.setStatus 2)

/-- Commands that are programs and not only part of the shell. -/
def programs : List String :=
  ["true", "false", "echo", "printf", "test", "[", "cat", "tr", "head", "tail", "wc", "seq", "sleep",
    "kill"]

/-- Runs a command by its name, if it is known. -/
def utility? (name : String) (args : List String) (s : State) : Option (Flow × State) :=
  let go (s : State) : Option (Flow × State) := some (.next, s)
  let level : Nat := (args.head?.bind String.toNat?).getD 1
  match name with
  | ":" | "true" | "wait" | "trap" | "umask" => go (s.setStatus 0)
  | "false" => go (s.setStatus 1)
  | "echo" => go (echo args (s.setStatus 0))
  | "printf" => go (printf args (s.setStatus 0))
  | "test" => go (s.setStatus (match test s args with
    | some true => 0
    | some false => 1
    | none => 2))
  | "[" => go (s.setStatus (match test s args.dropLast with
    | some true => 0
    | some false => 1
    | none => 2))
  | "read" => some (readLine args s)
  | "cat" => some (cat args s)
  | "tr" => some (tr args s)
  | "head" => some (head args s)
  | "tail" => some (tail args s)
  | "wc" => if args = ["-l"] then some (countLines s) else go (s.setStatus 1)
  | "seq" => go (seq args s)
  | "sleep" => go (sleep args s)
  | "kill" => some (kill args s)
  | "exit" => some (.exit, s.setStatus ((args.head?.bind String.toNat?).getD s.status))
  | "return" => some (.return, s.setStatus ((args.head?.bind String.toNat?).getD s.status))
  | "break" => some (.break level, s.setStatus 0)
  | "continue" => some (.continue level, s.setStatus 0)
  | "shift" => go ({ s with args := s.args.drop level }.setStatus 0)
  | "unset" => go ({ s with values := s.values.filter fun (n, _) => !args.contains n }.setStatus 0)
  | "export" | "local" | "readonly" => go ((args.foldl (fun s a =>
      match a.splitOn "=" with
      | n :: v :: vs => s.assign n ("=".intercalate (v :: vs))
      | _ => s) s).setStatus 0)
  | "set" => go ((match args with
    | "--" :: args => { s with args }
    | _ => s).setStatus 0)
  | "cd" =>
    let path := args.headD ""
    match s.folder.find s.place path, s.folder.walk s.place (Folder.splitPath path) with
    | .folder, .ok place => go ({ s with place }.setStatus 0)
    | _, _ => go (s.setStatus 2)
  | _ => none

end Scratchpad.Shell
