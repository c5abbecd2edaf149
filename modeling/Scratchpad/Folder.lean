/-! A folder with text files in it. -/
namespace Scratchpad

/-- Why a file cannot be read or run. -/
inductive FileFault where
  | notFound
  | isFolder
  | notFolder
  | denied
deriving DecidableEq, Repr

def FileFault.message : FileFault → String
  | .notFound => "No such file or directory (os error 2)"
  | .isFolder => "Is a directory (os error 21)"
  | .notFolder => "Not a directory (os error 20)"
  | .denied => "Permission denied (os error 13)"

structure Folder where
  /-- Paths and texts; the parts of a path stand between slashes. A path with a slash in front does
  not start in the folder. -/
  files : List (String × String) := []
  /-- Folders of which no more is known. -/
  folders : List String := []
deriving Repr

namespace Folder

/-- The parts of a path from the folder on. -/
abbrev Place := List String

def splitPath (path : String) : List String :=
  ((path.toList.splitOnP (· = '/')).map String.ofList).filter fun part => part ≠ "" && part ≠ "."

/-- Whether a path starts somewhere else than in a folder. -/
def isAbsolute (path : String) : Bool := path.startsWith "/"

inductive Node where
  | file (text : String)
  | folder
  | fault (f : FileFault)
deriving Repr

variable (d : Folder)

/-- What is at a place that is given without going back. -/
def node (place : Place) : Node :=
  let inside := d.files.filter fun (path, _) => !isAbsolute path
  let known := inside.map (·.1) ++ d.folders.filter fun path => !isAbsolute path
  match inside.find? fun (path, _) => splitPath path = place with
  | some (_, text) => .file text
  | none =>
    if place.isEmpty || known.any fun path => place.isPrefixOf (splitPath path) then .folder
    else if inside.any fun (path, _) => (splitPath path).isPrefixOf place then .fault .notFolder
    else .fault .notFound

/-- Goes from a place along some parts; two points go back. -/
def walk (place : Place) : List String → Except FileFault Place
  | [] => .ok place
  | ".." :: parts =>
    match d.node place with
    | .folder => walk place.dropLast parts
    | .file _ => .error .notFolder
    | .fault f => .error f
  | part :: parts => walk (place ++ [part]) parts

/-- The place that a path leads to. -/
def locate (path : String) : Except FileFault Place :=
  if path.isEmpty || isAbsolute path then .error .notFound else d.walk [] (splitPath path)

/-- What a path leads to from a place; a file cannot stand in front of a slash. -/
def find (place : Place) (path : String) : Node :=
  if path.isEmpty then .fault .notFound
  else if isAbsolute path then
    match d.files.lookup path with
    | some text => .file text
    | none => if d.folders.contains path then .folder else .fault .notFound
  else
    match d.walk place (splitPath path) with
    | .ok place =>
      match d.node place with
      | .file text =>
        if path.endsWith "/" || path.endsWith "/." then .fault .notFolder else .file text
      | n => n
    | .error f => .fault f

def read (place : Place) (path : String) : Except FileFault String :=
  match d.find place path with
  | .file text => .ok text
  | .folder => .error .isFolder
  | .fault f => .error f

def isThere (place : Place) (path : String) : Bool :=
  match d.find place path with
  | .fault _ => false
  | _ => true

end Folder

end Scratchpad
