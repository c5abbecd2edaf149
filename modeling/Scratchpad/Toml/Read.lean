import Scratchpad.Toml.Document
import Scratchpad.Toml.Scalar

/-! Reading TOML text. -/
namespace Scratchpad.Toml

/-- Arrays and inline tables nest fewer levels than this, and a dotted key has fewer parts. -/
def nestingLimit : Nat := 80

/-! ### Keys -/

def isBareKeyChar (c : Char) : Bool := c.isAlphanum || c = '_' || c = '-'

def simpleKey? (cs : List Char) : Option (String × List Char) :=
  match cs with
  | '"' :: r => (basicBody [] (r.length + 1) r).map fun (s, r) => (.ofList s, r)
  | '\'' :: r => (literalBody r).map fun (s, r) => (.ofList s, r)
  | _ =>
    match cs.takeWhile isBareKeyChar with
    | [] => none
    | k => some (.ofList k, cs.drop k.length)

/-- The parts of a key, with blanks around each of them. -/
def keyParts? : Nat → Reader (List String)
  | 0, _ => none
  | fuel + 1, cs => do
    let (k, r) ← simpleKey? (skipBlanks cs)
    match skipBlanks r with
    | '.' :: r => (keyParts? fuel r).map fun (ks, r) => (k :: ks, r)
    | r => some ([k], r)

/-- A key: the path of the table that holds it, and its last part. -/
def key? : Reader (List String × String) := fun cs => do
  let (ks, r) ← keyParts? (cs.length + 1) cs
  let last ← ks.getLast?
  if ks.length < nestingLimit then some ((ks.dropLast, last), r) else none

/-! ### Values -/

/-- The text behind blanks, line breaks and comments. -/
def skipSpace : Nat → List Char → List Char
  | 0, cs => cs
  | fuel + 1, cs =>
    match newline? (skipComment (skipBlanks cs)) with
    | some r => skipSpace fuel r
    | none => skipBlanks cs

def skipAllSpace (cs : List Char) : List Char := skipSpace (cs.length + 1) cs

/-- The items of an array behind its bracket, or behind the comma of an earlier item. -/
def arrayItems? (value? : Reader Toml) (done : List Toml) : Nat → Reader (List Toml)
  | 0, _ => none
  | fuel + 1, cs =>
    match skipAllSpace cs with
    | ']' :: r => some (done.reverse, r)
    | r => do
      let (v, r) ← value? r
      match skipAllSpace r with
      | ',' :: r => arrayItems? value? (v :: done) fuel r
      | ']' :: r => some ((v :: done).reverse, r)
      | _ => none

/-- A key, an equals sign and a value. -/
def pair? (value? : Reader Toml) : Reader ((List String × String) × Toml) := fun cs => do
  let (k, r) ← key? cs
  let '=' :: r := r | none
  let (v, r) ← value? (skipBlanks r)
  return ((k, v), r)

/-- The entries of an inline table; another one must follow each comma. -/
def inlineEntries? (value? : Reader Toml) (entries : Entries) : Nat → Reader Entries
  | 0, _ => none
  | fuel + 1, cs => do
    let (((path, k), v), r) ← pair? value? cs
    let (_, entries) ← addValue? path k v .stated entries
    match skipBlanks r with
    | ',' :: r => inlineEntries? value? entries fuel r
    | '}' :: r => some (entries, r)
    | _ => none

def inlineTable? (value? : Reader Toml) : Reader Toml := fun cs =>
  match skipBlanks cs with
  | '}' :: r => some (.table [], r)
  | cs => do
    let (entries, r) ← inlineEntries? value? [] (cs.length + 1) cs
    return (.table (entriesToToml entries), r)

def scalar? : Reader Toml
  | '"' :: r => (string? ('"' :: r)).map fun (s, r) => (.string s, r)
  | '\'' :: r => (string? ('\'' :: r)).map fun (s, r) => (.string s, r)
  | 't' :: 'r' :: 'u' :: 'e' :: r => some (.boolean true, r)
  | 'f' :: 'a' :: 'l' :: 's' :: 'e' :: r => some (.boolean false, r)
  | cs => number? cs

/-- A value with at most so many levels of arrays and inline tables. -/
def value? : Nat → Reader Toml
  | levels + 1, '[' :: r =>
    (arrayItems? (value? levels) [] (r.length + 1) r).map fun (vs, r) => (.array vs, r)
  | levels + 1, '\x7b' :: r => inlineTable? (value? levels) r
  | _, cs => scalar? cs

/-! ### Documents -/

/-- A document as far as it is read: its tables, and the path of the one to which lines add. -/
structure Draft where
  root : Entries := []
  current : List String := []

def Draft.add? (d : Draft) (path : List String) (key : String) (v : Toml) : Option Draft := do
  let (_, root) ← updateAt? .implied (addValue? path key v) d.current .stated d.root
  return { d with root }

/-- One line with something on it. -/
def line? (d : Draft) : Reader Draft
  | '[' :: '[' :: r => do
    let ((path, k), r) ← key? r
    let ']' :: ']' :: r := r | none
    return ({ root := ← openElement? path k d.root, current := path ++ [k] }, ← lineEnd? r)
  | '[' :: r => do
    let ((path, k), r) ← key? r
    let ']' :: r := r | none
    return ({ root := ← openTable? path k d.root, current := path ++ [k] }, ← lineEnd? r)
  | cs => do
    let (((path, k), v), r) ← pair? (value? (nestingLimit - 1)) cs
    return (← d.add? path k v, ← lineEnd? r)

def lines? (d : Draft) : Nat → List Char → Option Draft
  | 0, _ => none
  | fuel + 1, cs =>
    match skipAllSpace cs with
    | [] => some d
    | '#' :: r => if (skipComment ('#' :: r)).isEmpty then some d else none
    | r => do
      let (d, r) ← line? d r
      lines? d fuel r

/-- The entries of a document, if it is well-formed. A byte order mark may stand in front. -/
def readDocument? (text : String) : Option Toml :=
  let cs := text.toList
  let cs := if cs.head? = some '\uFEFF' then cs.drop 1 else cs
  (lines? {} (cs.length + 1) cs).map fun d => .table (entriesToToml d.root)

end Scratchpad.Toml
