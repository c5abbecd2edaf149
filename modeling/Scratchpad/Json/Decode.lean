import Scratchpad.Duration
import Scratchpad.Json.Read
import Scratchpad.Uuid

/-! Typed values from JSON. Nothing is converted: a value of another kind is refused. -/
namespace Scratchpad.Json

open Decimal (Binary64)

def natBelow? (limit : Nat) : Json → Option Nat
  | .int n => if 0 ≤ n && n < limit then some n.toNat else none
  | _ => none

/-- A number that fits 64 bits. -/
def word? (j : Json) : Option Nat := j.natBelow? (Nat.pow 2 64)

/-- A number that fits 32 bits. -/
def halfWord? (j : Json) : Option Nat := j.natBelow? (Nat.pow 2 32)

def string? : Json → Option String
  | .string s => some s
  | _ => none

def bool? : Json → Option Bool
  | .bool b => some b
  | _ => none

/-- A number of any form. -/
def double? : Json → Option Binary64
  | .float x => some x
  | .int n =>
    let x := Binary64.ofRatio n.natAbs 1
    some (if n < 0 then x.neg else x)
  | _ => none

def duration? (j : Json) : Option Duration := j.string?.bind Duration.read?

def uuid? (j : Json) : Option Uuid := j.string?.bind Uuid.read?

def items? {α : Type} (f : Json → Option α) : Json → Option (List α)
  | .array items => items.mapM f
  | _ => none

/-- Null stands for an absent value. -/
def nullable? {α : Type} (f : Json → Option α) : Json → Option (Option α)
  | .null => some none
  | j => (f j).map some

/-- A constant is written as its name, or as an object with the name as its only key and null. -/
def constant? {α : Type} (ofName? : String → Option α) : Json → Option α
  | .string s => ofName? s
  | .object [(s, .null)] => ofName? s
  | _ => none

/-- The fields of a record that are given. -/
abbrev Record := List (String × Json)

/-- A record is an object with these keys, each at most once, and any others; or an array with the
values in the order of the keys. An `exact` array has no further items. -/
def record? (keys : List String) (exact : Bool) : Json → Option Record
  | .object fields =>
    let known := fields.filter fun (k, _) => keys.contains k
    if (known.map (·.1)).Nodup then some known else none
  | .array items => if exact && keys.length < items.length then none else some (keys.zip items)
  | _ => none

def Record.get? {α : Type} (r : Record) (key : String) (f : Json → Option α) : Option α :=
  (r.lookup key).bind f

/-- A field that may be missing, but not ill-formed. -/
def Record.getD? {α : Type} (r : Record) (key : String) (f : Json → Option α) (default : α) :
    Option α :=
  match r.lookup key with
  | some j => f j
  | none => some default

/-- Which parts of a tree are read: of a record only the named fields. -/
inductive Shape where
  | any
  | list (item : Shape)
  | record (fields : List (String × Shape))

mutual

/-- Drops the fields that nobody reads. -/
def Tree.prune (shape : Shape) : Tree → Tree
  | .array items =>
    match shape with
    | .list item => .array (Tree.pruneItems item items)
    | .record fields => .array (Tree.pruneInOrder (fields.map (·.2)) items)
    | .any => .array items
  | .object fields =>
    match shape with
    | .record known => .object (Tree.pruneFields known fields)
    | _ => .object fields
  | t => t

def Tree.pruneItems (shape : Shape) : List Tree → List Tree
  | [] => []
  | t :: ts => t.prune shape :: Tree.pruneItems shape ts

def Tree.pruneInOrder (shapes : List Shape) : List Tree → List Tree
  | [] => []
  | t :: ts => t.prune (shapes.headD .any) :: Tree.pruneInOrder shapes.tail ts

def Tree.pruneFields (known : List (String × Shape)) :
    List (Option String × Tree) → List (Option String × Tree)
  | [] => []
  | (none, t) :: fields => (none, t) :: Tree.pruneFields known fields
  | (some k, t) :: fields =>
    match known.lookup k with
    | some shape => (some k, t.prune shape) :: Tree.pruneFields known fields
    | none => Tree.pruneFields known fields

end

/-- Reads a text of which only the parts of a shape matter. -/
def readAs (shape : Shape) (text : String) : Option Json := do
  ((← Tree.read text).prune shape).value? depthLimit

end Scratchpad.Json
