import Scratchpad.CommandLine.Reply

/-! The program on the command line: it reads the files that a command needs and prints the answer. -/
namespace Scratchpad.CommandLine

/-- What is at a path is added to a folder under a name. -/
def addFile (path name : String) (d : Folder) : IO Folder := do
  try
    let text ← IO.FS.readFile path
    return { d with files := (name, text) :: d.files }
  catch
    | .inappropriateType .. => return { d with folders := name :: d.folders }
    | _ => return d

def addFiles (path : String → String) (names : List String) (d : Folder) : IO Folder :=
  names.foldlM (fun d name => addFile (path name) name d) d

def freshId : IO Uuid := do
  let high ← IO.rand 0 (Nat.pow 2 64 - 1)
  let low ← IO.rand 0 (Nat.pow 2 64 - 1)
  return .ofRandom (high * Nat.pow 2 64 + low)

def Command.file? : Command → Option String
  | .run file .. | .instrument file _ | .watch file .. => some file
  | .config => none

/-- The words of all commands that start workers. -/
def commandWords (settings : Settings) : List String :=
  settings.languages.flatMap fun (_, l) => l.workerCommand ++ l.transpilerCommand.getD []

def surroundings (a : Arguments) : IO Surroundings := do
  let own := ((← IO.getEnv "HOME").getD "") ++ "/" ++ Settings.homePath
  let folder ← addFiles id (a.command.file?.toList ++ a.config.toList ++ [own]) {}
  let s : Surroundings :=
    { folder, ownSettings := ⟨own, own⟩, freshId := ← freshId
      workers := fun _ => .ofFolder {} (.ok []) }
  let words := match s.settings a with
    | .ok settings => commandWords settings
    | .error _ => []
  let inFolder (word : String) : String := match a.workerFolder with
    | some dir => if Folder.isAbsolute word then word else dir ++ "/" ++ word
    | none => word
  let programs ← addFiles inFolder words {}
  return { s with workers := fun _ => .ofFolder programs (.ok []) }

def print (o : Output) : IO Unit := do
  IO.eprint o.err
  IO.print o.out

/-- Runs a file whenever its text has changed, for ever. -/
partial def watchFile (file : String) (interval : Nat) (seen : Option String) (w : Watch) :
    IO Unit := do
  let d ← addFile file file {}
  let text := d.files.lookup file
  let w ← match text with
    | some code =>
      if text = seen then pure w
      else do
        let (w, shown) := w.rerun (← freshId) code
        print shown
        pure w
    | none => pure w
  IO.sleep interval.toUInt32
  watchFile file interval (text <|> seen) w

end Scratchpad.CommandLine

open Scratchpad.CommandLine in
def main (words : List String) : IO UInt32 := do
  let s ← match Arguments.read words with
    | .ok a => surroundings a
    | .error _ =>
      pure { folder := {}, ownSettings := ⟨"", ""⟩, freshId := ⟨0⟩
             workers := fun _ => .ofFolder {} (.ok []) }
  match s.reply words with
  | .misuse =>
    IO.eprint overview
    return 2
  | .answer (.plain shown ok) =>
    print shown
    return if ok then 0 else 1
  | .answer (.report r) =>
    IO.println (r.toJson.layout 0)
    return 0
  | .watch w file interval first =>
    print first
    watchFile file interval none w
    return 0
