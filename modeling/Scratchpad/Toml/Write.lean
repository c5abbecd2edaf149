import Scratchpad.Toml.Scalar

/-!
Writing TOML. Tables stand in sections of their own, an array of several items has a line for each,
and of the ways to quote a text the plainest is taken that needs no escapes.
-/
namespace Scratchpad.Toml

open Decimal (Binary64)

/-! ### Strings -/

/-- Control characters that only an escape can write. -/
def needsEscape (c : Char) : Bool := !isPlain c && c ≠ '\n'

/-- The longest run of a quote in a text. -/
def longestRun (quote : Char) : List Char → Nat
  | [] => 0
  | c :: cs => max (quoteRun quote (c :: cs)) (longestRun quote cs)

def hexDigits (width n : Nat) : List Char :=
  let ds := (Nat.toDigits 16 n).map Char.toUpper
  List.replicate (width - ds.length) '0' ++ ds

/-- A character other than a quote between double quotes. -/
def escaped (keepLines : Bool) (c : Char) : List Char :=
  match c with
  | '\\' => ['\\', '\\']
  | '\x08' => ['\\', 'b']
  | '\t' => ['\\', 't']
  | '\x0c' => ['\\', 'f']
  | '\r' => ['\\', 'r']
  | '\n' => if keepLines then ['\n'] else ['\\', 'n']
  | c => if isPlain c then [c] else '\\' :: 'u' :: hexDigits 4 c.toNat

/-- The text between double quotes. Between triple ones lines are kept, and so are quotes as long as
no more than two follow one another; `run` of them stand in front. -/
def escapedText (triple : Bool) (run : Nat) : List Char → List Char
  | [] => []
  | c :: cs =>
    if c ≠ '"' then escaped triple c ++ escapedText triple 0 cs
    else if triple && run < 2 then '"' :: escapedText triple (run + 1) cs
    else '\\' :: '"' :: escapedText triple 0 cs

def quote (s : String) : String :=
  let cs := s.toList
  let control := cs.any needsEscape
  let lines := cs.contains '\n'
  let doubles := longestRun '"' cs
  let singles := longestRun '\'' cs
  let backslash := cs.contains '\\'
  let first := if lines then ['\n'] else []
  let triple (q : Char) (body : List Char) : List Char := [q, q, q] ++ first ++ body ++ [q, q, q]
  .ofList <|
    if !control && !backslash && doubles = 0 && !lines then '"' :: escapedText false 0 cs ++ ['"']
    else if !control && singles = 0 && !lines then '\'' :: cs ++ ['\'']
    else if !control && !backslash && doubles ≤ 2 then triple '"' (escapedText true 0 cs)
    else if !control && singles ≤ 2 then triple '\'' cs
    else if lines then triple '"' (escapedText true 0 cs)
    else '"' :: escapedText false 0 cs ++ ['"']

def isBareKey (k : String) : Bool :=
  !k.isEmpty && k.toList.all fun c => c.isAlphanum || c = '_' || c = '-'

def renderKey (k : String) : String := if isBareKey k then k else quote k

/-! ### Values and sections -/

def renderFloat (x : Binary64) : String :=
  if Binary64.infinityBits < x.magnitude then "nan" else x.toPlainText

def spread (items : List String) : String :=
  "[\n" ++ String.join (items.map fun v => s!"    {v},\n") ++ "]"

mutual

def renderValue : Toml → String
  | .string s => quote s
  | .integer n => toString n
  | .float x => renderFloat x
  | .boolean b => if b then "true" else "false"
  | .datetime text => text
  | .array items =>
    match renderItems items with
    | [] => "[]"
    | [v] => "[" ++ v ++ "]"
    | vs => spread vs
  | .table entries => "\x7b " ++ ", ".intercalate (renderEntries entries) ++ " \x7d"

def renderItems : List Toml → List String
  | [] => []
  | v :: vs => renderValue v :: renderItems vs

def renderEntries : List (String × Toml) → List String
  | [] => []
  | (k, v) :: entries => (renderKey k ++ " = " ++ renderValue v) :: renderEntries entries

end

/-- The lines of a section. -/
structure Section where
  /-- None in front of the entries of the document itself. -/
  header : Option String
  entries : List String

def isTable : Toml → Bool
  | .table _ => true
  | _ => false

/-- A section is written if it has entries, or if its table is empty. -/
def sectionOf (path : List String) (entries : List (String × Toml)) : List Section :=
  let plain := entries.filter fun (_, v) => !isTable v
  let header := if path.isEmpty then none else some (".".intercalate (path.map renderKey))
  if plain.isEmpty && (path.isEmpty || !entries.isEmpty) then []
  else [⟨header, renderEntries plain⟩]

mutual

/-- The sections of a table and of the tables in it. -/
def sections (path : List String) : Toml → List Section
  | .table entries => sectionOf path entries ++ innerSections path entries
  | _ => []

def innerSections (path : List String) : List (String × Toml) → List Section
  | [] => []
  | (k, v) :: entries => sections (path ++ [k]) v ++ innerSections path entries

end

def Section.render (s : Section) : String :=
  let header := match s.header with
    | some h => s!"[{h}]\n"
    | none => ""
  header ++ String.join (s.entries.map (· ++ "\n"))

/-- A document; an empty line stands between sections. -/
def render (document : Toml) : String :=
  "\n".intercalate ((sections [] document).map Section.render)

end Scratchpad.Toml
