import Scratchpad.Toml.Basic

/-! A TOML document while it is put together: which tables may still be extended, and how. -/
namespace Scratchpad.Toml

/-- How a table came about. -/
inductive Origin where
  /-- It has a header of its own, or is the whole document. -/
  | stated
  /-- The header of a table below it names it. -/
  | implied
  /-- A dotted key names it. -/
  | dotted
deriving DecidableEq, Repr

inductive Item where
  | value (v : Toml)
  | table (origin : Origin) (entries : List (String × Item))
  /-- Tables under one doubly bracketed header; the last one may still grow. -/
  | tables (done : List (List (String × Item))) (last : List (String × Item))

/-- The entries of a table. -/
abbrev Entries := List (String × Item)

def Entries.get? (entries : Entries) (key : String) : Option Item := entries.lookup key

/-- Puts an item in the place of the one with the same key, or behind all others. -/
def Entries.set (key : String) (item : Item) : Entries → Entries
  | [] => [(key, item)]
  | (k, i) :: entries =>
    if k = key then (k, item) :: entries else (k, i) :: Entries.set key item entries

/-- Changes the table at a path. Tables that are missing on the way come into being with `made` for
their origin; a dotted key may not pass through a table that has a header. -/
def updateAt? (made : Origin) (f : Origin → Entries → Option (Origin × Entries)) :
    List String → Origin → Entries → Option (Origin × Entries)
  | [], origin, entries => f origin entries
  | key :: path, origin, entries =>
    match entries.get? key with
    | none => do
      let (o, inner) ← updateAt? made f path made []
      return (origin, entries.set key (.table o inner))
    | some (.table o inner) =>
      if made = .dotted && o = .stated then none
      else do
        let (o, inner) ← updateAt? made f path o inner
        return (origin, entries.set key (.table o inner))
    | some (.tables done last) => do
      let (_, last) ← updateAt? made f path .stated last
      return (origin, entries.set key (.tables done last))
    | some (.value _) => none

/-- Adds a value under a key that must be new. A table made by dotted keys grows by them alone. -/
def addValue? (path : List String) (key : String) (v : Toml) (origin : Origin)
    (entries : Entries) : Option (Origin × Entries) :=
  updateAt? .dotted (fun origin entries =>
    if (origin = .dotted) = path.isEmpty || (entries.get? key).isSome then none
    else some (origin, entries.set key (.value v))) path origin entries

/-- Opens the table of a header. It must be new, or only implied so far. -/
def openTable? (path : List String) (key : String) (root : Entries) : Option Entries :=
  (updateAt? .implied (fun origin entries =>
    match entries.get? key with
    | none => some (origin, entries.set key (.table .stated []))
    | some (.table .implied inner) => some (origin, entries.set key (.table .stated inner))
    | some _ => none) path .stated root).map (·.2)

/-- Opens one more table of an array. -/
def openElement? (path : List String) (key : String) (root : Entries) : Option Entries :=
  (updateAt? .implied (fun origin entries =>
    match entries.get? key with
    | none => some (origin, entries.set key (.tables [] []))
    | some (.tables done last) => some (origin, entries.set key (.tables (done ++ [last]) []))
    | some _ => none) path .stated root).map (·.2)

mutual

def Item.toToml : Item → Toml
  | .value v => v
  | .table _ entries => .table (entriesToToml entries)
  | .tables done last => .array (tablesToToml done ++ [.table (entriesToToml last)])

def entriesToToml : List (String × Item) → List (String × Toml)
  | [] => []
  | (k, i) :: entries => (k, i.toToml) :: entriesToToml entries

def tablesToToml : List (List (String × Item)) → List Toml
  | [] => []
  | t :: ts => .table (entriesToToml t) :: tablesToToml ts

end

end Scratchpad.Toml
