import Scratchpad.Shell.Pattern
import Scratchpad.Shell.Read
import Scratchpad.Shell.Utility

/-! Running scripts. What runs out of fuel counts as waiting for ever. -/
namespace Scratchpad.Shell

/-- A piece of a word with its value. -/
inductive Chunk where
  | text (cs : List Char) (quoted : Bool)
  /-- A value that falls apart at separators. -/
  | loose (cs : List Char)
  /-- Values of which each is a word of its own. -/
  | list (ss : List String)

namespace Chunk

def chars : Chunk → List (Char × Bool)
  | .text cs quoted => cs.map (·, quoted)
  | .loose cs => cs.map (·, false)
  | .list ss => (" ".intercalate ss).toList.map (·, true)

/-- Chunks as one text, in which the flags tell what was quoted. -/
def joined (chunks : List Chunk) : List (Char × Bool) := chunks.flatMap chars

def toText (chunks : List Chunk) : String := .ofList ((joined chunks).map (·.1))

/-- The words so far, and the one that is not finished. -/
abbrev Words := List String × Option (List Char)

def flush (w : Words) : Words :=
  match w.2 with
  | some cs => (w.1 ++ [.ofList cs], none)
  | none => w

def addLoose (seps : List Char) (w : Words) (c : Char) : Words :=
  if seps.contains c then flush w else (w.1, some (w.2.getD [] ++ [c]))

def addList (w : Words) : List String → Words
  | [] => if w.2 = some [] then (w.1, none) else w
  | [s] => (w.1, some (w.2.getD [] ++ s.toList))
  | s :: ss => addList (flush (w.1, some (w.2.getD [] ++ s.toList))) ss

def add (seps : List Char) (w : Words) : Chunk → Words
  | .text cs _ => (w.1, some (w.2.getD [] ++ cs))
  | .loose cs => cs.foldl (addLoose seps) w
  | .list ss => addList w ss

/-- The words that the chunks of one word fall apart into. -/
def words (seps : List Char) (chunks : List Chunk) : List String :=
  (flush (chunks.foldl (add seps) ([], none))).1

end Chunk

/-! ### Arithmetic -/

/-- A number or a variable, with signs and blanks in front. -/
def atom (s : State) : Nat → List Char → Option (Int × List Char)
  | 0, _ => none
  | fuel + 1, cs =>
    match cs.dropWhile Char.isWhitespace with
    | '-' :: r => (atom s fuel r).map fun (n, r) => (-n, r)
    | '+' :: r => atom s fuel r
    | '$' :: r => atom s fuel r
    | cs =>
      let ds := cs.takeWhile Char.isDigit
      if !ds.isEmpty then some (((String.ofList ds).toNat?.getD 0 : Nat), cs.drop ds.length)
      else
        match name? cs with
        | some (n, r) => some (((s.value? n).bind int?).getD 0, r)
        | none => none

def product (s : State) : Nat → Int → List Char → Option (Int × List Char)
  | 0, _, _ => none
  | fuel + 1, n, cs =>
    match cs.dropWhile Char.isWhitespace with
    | '*' :: r => (atom s (r.length + 1) r).bind fun (m, r) => product s fuel (n * m) r
    | '/' :: r => (atom s (r.length + 1) r).bind fun (m, r) => product s fuel (n.tdiv m) r
    | '%' :: r => (atom s (r.length + 1) r).bind fun (m, r) => product s fuel (n.tmod m) r
    | r => some (n, r)

def sum (s : State) : Nat → Int → List Char → Option (Int × List Char)
  | 0, _, _ => none
  | fuel + 1, n, cs =>
    let term (r : List Char) : Option (Int × List Char) :=
      (atom s (r.length + 1) r).bind fun (m, r) => product s (r.length + 1) m r
    match cs.dropWhile Char.isWhitespace with
    | '+' :: r => (term r).bind fun (m, r) => sum s fuel (n + m) r
    | '-' :: r => (term r).bind fun (m, r) => sum s fuel (n - m) r
    | r => some (n, r)

/-- The value of sums and products; zero for anything else. -/
def evaluate (s : State) (cs : List Char) : Int :=
  match sum s (cs.length + 2) 0 ('+' :: cs) with
  | some (n, _) => n
  | none => 0

/-! ### Expansion -/

/-- The text that was put out, without the line breaks at its end. -/
def outputText (items : List Item) : List Char :=
  let cs := items.filterMap fun
    | .char c => some c
    | .pause _ => none
  (cs.dropWhile (· = '\n')).reverse

/-- Puts out the time that went by in another shell. -/
def State.pauseLike (s : State) (items : List Item) : State :=
  items.reverse.foldl (fun s i => match i with
    | .pause d => s.pause d
    | .char _ => s) s

def param (quoted : Bool) (name value : String) (s : State) : Chunk :=
  if name = "@" && quoted then .list s.args
  else if quoted then .text value.toList true
  else .loose value.toList

mutual

def expand : Nat → Word → State → Flow × List Chunk × State
  | 0, _, s => (.starved, [], s)
  | _, [], s => (.next, [], s)
  | fuel + 1, p :: ps, s =>
    match expandPiece fuel p s with
    | (.next, chunks, s) =>
      match expand fuel ps s with
      | (flow, rest, s) => (flow, chunks ++ rest, s)
    | r => r

def expandPiece : Nat → Piece → State → Flow × List Chunk × State
  | 0, _, s => (.starved, [], s)
  | _, .text cs quoted, s => (.next, [.text cs quoted], s)
  | fuel + 1, .param name how quoted, s =>
    let value := (s.value? name).getD ""
    let one (value : String) : List Chunk := [param quoted name value s]
    let isSet (orEmpty : Bool) : Bool := (s.value? name).isSome && !(orEmpty && value = "")
    match how with
    | .plain => (.next, one value, s)
    | .length => (.next, one (toString value.length), s)
    | .cut how pattern =>
      match expand fuel pattern s with
      | (.next, chunks, s) =>
        let p := Pattern.ofChars (Chunk.joined chunks)
        (.next, one (.ofList (Pattern.cut p how.suffix how.longest value.toList)), s)
      | r => r
    | .otherwise orEmpty word =>
      if isSet orEmpty then (.next, one value, s) else expand fuel word s
    | .instead orEmpty word => if isSet orEmpty then expand fuel word s else (.next, [], s)
  | fuel + 1, .output c quoted, s =>
    let (flow, t) := run fuel c { s with output := [] }
    let s := { s with input := t.input, status := t.status }.pauseLike t.output
    match flow with
    | .starved => (.starved, [], s)
    | .killed => (.killed, [], s)
    | _ =>
      let cs := outputText t.output
      (.next, [if quoted then .text cs true else .loose cs], s)
  | fuel + 1, .arithmetic expression, s =>
    match expand fuel expression s with
    | (.next, chunks, s) =>
      (.next, [.loose (toString (evaluate s (Chunk.toText chunks).toList)).toList], s)
    | r => r

/-- The text of a word, not split. -/
def expandText : Nat → Word → State → Flow × String × State
  | 0, _, s => (.starved, "", s)
  | fuel + 1, w, s =>
    match expand fuel w s with
    | (flow, chunks, s) => (flow, Chunk.toText chunks, s)

def expandWords : Nat → List Word → State → Flow × List String × State
  | 0, _, s => (.starved, [], s)
  | _, [], s => (.next, [], s)
  | fuel + 1, w :: ws, s =>
    match expand fuel w s with
    | (.next, chunks, s) =>
      match expandWords fuel ws s with
      | (flow, rest, s) => (flow, Chunk.words s.separators chunks ++ rest, s)
    | (flow, _, s) => (flow, [], s)

def assignAll : Nat → List (String × Word) → State → Flow × State
  | 0, _, s => (.starved, s)
  | _, [], s => (.next, s)
  | fuel + 1, (n, w) :: rest, s =>
    match expandText fuel w s with
    | (.next, value, s) => assignAll fuel rest (s.assign n value)
    | (flow, _, s) => (flow, s)

/-- Runs words as a command. -/
def runWords : Nat → List String → State → Flow × State
  | 0, _, s => (.starved, s)
  | _, [], s => (.next, s)
  | fuel + 1, name :: args, s =>
    match s.functions.lookup name with
    | some body =>
      let (flow, t) := run fuel body { s with args }
      ((if flow = .return then .next else flow), { t with args := s.args })
    | none =>
      match name with
      | "exec" =>
        if args.isEmpty then (.next, s)
        else
          match runWords fuel args s with
          | (.next, s) => (.exit, s)
          | r => r
      | "command" => runWords fuel args s
      | "eval" =>
        match read? (" ".intercalate args) with
        | some c => run fuel c s
        | none => (.exit, s.setStatus 2)
      | "." =>
        match (s.folder.read s.place (args.headD "")).toOption.bind read? with
        | some c =>
          match run fuel c s with
          | (.return, s) => (.next, s)
          | r => r
        | none => (.exit, s.setStatus 2)
      | "sh" | "/bin/sh" => runShell fuel args s
      | _ =>
        match utility? name args s with
        | some r => r
        | none => (.next, s.setStatus (if s.folder.isThere s.place name then 126 else 127))

/-- Runs another shell, which shares the input. -/
def runShell : Nat → List String → State → Flow × State
  | 0, _, s => (.starved, s)
  | fuel + 1, args, s =>
    let script : Except Nat (String × String × List String) := match args with
      | "-c" :: text :: rest => .ok (text, rest.headD "sh", rest.drop 1)
      | path :: rest =>
        match s.folder.read s.place path with
        | .ok text => .ok (text, path, rest)
        | .error f => .error (if f = .notFound then 127 else 2)
      | [] => .ok (String.ofList s.input, "sh", [])
    match script with
    | .error n => (.next, s.setStatus n)
    | .ok (text, name, rest) =>
      match read? text with
      | none => (.next, s.setStatus 2)
      | some c =>
        match run fuel c { s with name, args := rest, functions := [], status := 0 } with
        | (.starved, t) => (.starved, { s with output := t.output })
        | (.killed, t) => (.killed, { s with output := t.output })
        | (_, t) => (.next, { s with output := t.output, input := t.input, status := t.status })

/-- Runs a command with its redirections; what goes to other descriptors is lost. -/
def redirect : Nat → List Redirection → Command → State → Flow × State
  | 0, _, _, s => (.starved, s)
  | fuel + 1, [], c, s => run fuel c s
  | fuel + 1, .mk n direction target :: rest, c, s =>
    match expandText fuel target s with
    | (.next, path, s) =>
      match direction with
      | .input =>
        if n ≠ 0 then redirect fuel rest c s
        else
          match (if path = "/dev/null" then .ok "" else s.folder.read s.place path) with
          | .ok text =>
            let (flow, t) := redirect fuel rest c { s with input := text.toList, ended := true }
            (flow, { t with input := s.input, ended := s.ended })
          | .error _ => (.next, s.setStatus 2)
      | .duplicate =>
        if n = 1 && path ≠ "1" then
          let (flow, t) := redirect fuel rest c { s with output := [] }
          (flow, { t with output := s.output }.pauseLike t.output)
        else redirect fuel rest c s
      | _ =>
        if n ≠ 1 then redirect fuel rest c s
        else
          let (flow, t) := redirect fuel rest c { s with output := [] }
          let text := (t.output.reverse.filterMap fun
            | .char c => some c
            | .pause _ => none)
          let before := match direction, s.folder.read s.place path with
            | .append, .ok text => text
            | _, _ => ""
          let files := if path = "/dev/null" then t.folder.files
            else (path, before ++ .ofList text) :: t.folder.files.filter (·.1 ≠ path)
          (flow, { t with output := s.output, folder := { t.folder with files } }.pauseLike t.output)
    | (flow, _, s) => (flow, s)

/-- Runs a loop. -/
def runLoop : Nat → Bool → Command → Command → State → Flow × State
  | 0, _, _, _, s => (.starved, s)
  | fuel + 1, until_, condition, body, s =>
    match run fuel condition s with
    | (.next, s) =>
      if (s.status = 0) = until_ then (.next, s.setStatus 0)
      else
        match run fuel body s with
        | (.next, s) | (.continue 1, s) | (.continue 0, s) =>
          runLoop fuel until_ condition body s
        | (.break 1, s) | (.break 0, s) => (.next, s)
        | (.break n, s) => (.break (n - 1), s)
        | (.continue n, s) => (.continue (n - 1), s)
        | r => r
    | r => r

def runEach : Nat → String → List String → Command → State → Flow × State
  | 0, _, _, _, s => (.starved, s)
  | _, _, [], _, s => (.next, s)
  | fuel + 1, name, w :: ws, body, s =>
    match run fuel body (s.assign name w) with
    | (.next, s) | (.continue 1, s) | (.continue 0, s) => runEach fuel name ws body s
    | (.break 1, s) | (.break 0, s) => (.next, s)
    | (.break n, s) => (.break (n - 1), s)
    | (.continue n, s) => (.continue (n - 1), s)
    | r => r

/-- Whether one of some patterns matches. -/
def matchesAny : Nat → List Word → List Char → State → Flow × Bool × State
  | 0, _, _, s => (.starved, false, s)
  | _, [], _, s => (.next, false, s)
  | fuel + 1, w :: ws, cs, s =>
    match expand fuel w s with
    | (.next, chunks, s) =>
      if Pattern.matches_ (Pattern.ofChars (Chunk.joined chunks)) cs then (.next, true, s)
      else matchesAny fuel ws cs s
    | (flow, _, s) => (flow, false, s)

def runArms : Nat → List Char → List Arm → State → Flow × State
  | 0, _, _, s => (.starved, s)
  | _, _, [], s => (.next, s.setStatus 0)
  | fuel + 1, cs, .mk ps body :: rest, s =>
    match matchesAny fuel ps cs s with
    | (.next, true, s) => run fuel body (s.setStatus 0)
    | (.next, false, s) => runArms fuel cs rest s
    | (flow, _, s) => (flow, s)

def run : Nat → Command → State → Flow × State
  | 0, _, s => (.starved, s)
  | _, .nothing, s => (.next, s)
  | fuel + 1, .simple settings words [], s =>
    match expandWords fuel words s with
    | (.next, [], s) => assignAll fuel settings (s.setStatus 0)
    | (.next, fields, s) =>
      let saved := settings.map fun (n, _) => (n, s.values.lookup n)
      match assignAll fuel settings s with
      | (.next, s) =>
        let (flow, s) := runWords fuel fields s
        (flow, saved.foldl (fun s (n, v) => match v with
          | some v => s.assign n v
          | none => { s with values := s.values.filter (·.1 ≠ n) }) s)
      | r => r
    | (flow, _, s) => (flow, s)
  | fuel + 1, .simple settings words rs, s => redirect fuel rs (.simple settings words []) s
  | fuel + 1, .sequence a b, s =>
    match run fuel a s with
    | (.next, s) => run fuel b s
    | r => r
  | fuel + 1, .both a b, s =>
    match run fuel a s with
    | (.next, s) => if s.status = 0 then run fuel b s else (.next, s)
    | r => r
  | fuel + 1, .either a b, s =>
    match run fuel a s with
    | (.next, s) => if s.status = 0 then (.next, s) else run fuel b s
    | r => r
  | fuel + 1, .negation c, s =>
    match run fuel c s with
    | (.next, s) => (.next, s.setStatus (if s.status = 0 then 1 else 0))
    | r => r
  | fuel + 1, .pipe a b, s =>
    let (flow, t) := run fuel a { s with output := [] }
    if flow = .starved || flow = .killed then (flow, s)
    else
      let text := t.output.reverse.filterMap fun
        | .char c => some c
        | .pause _ => none
      let s := { s with input := t.input }.pauseLike t.output
      let (flow, u) := run fuel b { s with input := text, ended := true }
      let s := { s with output := u.output, status := u.status }
      if flow = .starved || flow = .killed then (flow, s) else (.next, s)
  | fuel + 1, .loop until_ condition body, s => runLoop fuel until_ condition body s
  | fuel + 1, .each name words body, s =>
    match expandWords fuel words s with
    | (.next, fields, s) => runEach fuel name fields body s
    | (flow, _, s) => (flow, s)
  | fuel + 1, .cond condition yes no, s =>
    match run fuel condition s with
    | (.next, s) =>
      if s.status = 0 then run fuel yes s else run fuel no (s.setStatus 0)
    | r => r
  | fuel + 1, .select word arms, s =>
    match expandText fuel word s with
    | (.next, value, s) => runArms fuel value.toList arms s
    | (flow, _, s) => (flow, s)
  | fuel + 1, .redirected c rs, s => redirect fuel rs c s
  | fuel + 1, .apart c, s =>
    let (flow, t) := run fuel c s
    let s := { s with input := t.input, output := t.output, status := t.status }
    if flow = .starved || flow = .killed then (flow, s) else (.next, s)
  | _ + 1, .define name body, s =>
    (.next, { s with functions := (name, body) :: s.functions.filter (·.1 ≠ name), status := 0 })

end

/-! ### Programs -/

/-- How a program stands. -/
inductive Ending where
  | exited (code : Nat)
  | killed
  /-- More input is waited for. -/
  | waiting
deriving DecidableEq, Repr

/-- How far a program goes. -/
def fuel : Nat := 20000

/-- What a program puts out when it gets some input, and how it stands then. -/
def transcript (folder : Folder) (place : Folder.Place) (command : List String)
    (input : List String) : List Item × Ending :=
  let lines := String.join (input.map (· ++ "\n"))
  let (flow, s) := runWords fuel command { folder, place, input := lines.toList }
  (s.output.reverse, match flow with
    | .starved => .waiting
    | .killed => .killed
    | _ => .exited s.status)

/-- Why a program cannot be started at a place, if it cannot. -/
def startFault? (folder : Folder) (place : Except FileFault Folder.Place) (program : String) :
    Option FileFault :=
  match place with
  | .error f => some f
  | .ok place =>
    match folder.node place with
    | .folder =>
      if program.contains '/' && program ≠ "/bin/sh" then
        match folder.find place program with
        | .fault f => some f
        | _ => some .denied
      else if program = "sh" || program = "/bin/sh" then none
      else if programs.contains program then none
      else some .notFound
    | .file _ => some .notFolder
    | .fault f => some f

end Scratchpad.Shell
