import Scratchpad.CommandLine.Arguments

/-! How the program and its commands are used. -/
namespace Scratchpad.CommandLine

/-- A flag as it is written. -/
def Flag.form (f : Flag) : String :=
  let letter := match f.letter with
    | some c => s!"-{c}, "
    | none => "    "
  let value := match f.value with
    | some v => s!" <{v}>"
    | none => ""
  s!"{letter}--{f.name}{value}"

/-- Two columns, the second of which starts at one place. -/
def columns (rows : List (String × String)) : List String :=
  let width := rows.foldl (fun n (left, _) => max n left.length) 0
  rows.map fun (left, right) => "  " ++ left.pushn ' ' (width - left.length) ++ "  " ++ right

/-- Where a flag stands among those of its rank: by letter, or else by name. -/
def Flag.sortKey (f : Flag) : String :=
  match f.letter with
  | some c => c.toLower.toString ++ (if c.isLower then "0" else "1")
  | none => f.name

/-- Flags of two kinds, each in its order; of two flags at one place the first by key comes first. -/
def zipFlags : List Flag → List Flag → List Flag
  | a :: as, b :: bs =>
    (if a.sortKey < b.sortKey then [a, b] else [b, a]) ++ zipFlags as bs
  | [], bs => bs
  | as, [] => as

def page (purpose usage : String) (sections : List (String × List String)) : String :=
  let sections := sections.map fun (title, lines) => s!"\n\n{title}:\n" ++ "\n".intercalate lines
  s!"{purpose}\n\nUsage: {usage}" ++ String.join sections ++ "\n"

def flagLines (flags : List Flag) : List String :=
  columns (flags.map fun f => (f.form, f.purpose))

def helpPurpose : String := "Print this message or the help of the given subcommand(s)"

/-- How the program is used. -/
def overview : String :=
  page "Run JavaScript, TypeScript and Python snippets with per-line results"
    "livepad [OPTIONS] <COMMAND>"
    [("Commands", columns (commandForms.map (fun c => (c.name, c.purpose)) ++
        [("help", helpPurpose)])),
      ("Options", flagLines (globalFlags ++ [helpFlag, versionFlag]))]

/-- How a command is used. -/
def CommandForm.help (c : CommandForm) : String :=
  let file := if c.takesFile then " <FILE>" else ""
  let words := if c.takesFile then [("Arguments", columns [("<FILE>", "")])] else []
  page c.purpose s!"livepad {c.name} [OPTIONS]{file}"
    (words ++ [("Options", flagLines (zipFlags c.flags globalFlags ++ [helpFlag]))])

def help : Option String → String
  | none => overview
  | some name =>
    match commandForm? name with
    | some c => c.help
    | none =>
      page helpPurpose "livepad help [COMMAND]..."
        [("Arguments", columns [("[COMMAND]...", "Print help for the subcommand(s)")])]

end Scratchpad.CommandLine
