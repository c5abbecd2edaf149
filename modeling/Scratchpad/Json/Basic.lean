import Scratchpad.Decimal.Binary64

/-! JSON values. Whole numbers are exact; every other number is a double. -/
namespace Scratchpad

open Decimal (Binary64)

inductive Json where
  | null
  | bool (b : Bool)
  | int (n : Int)
  | float (x : Binary64)
  | string (s : String)
  | array (items : List Json)
  /-- Fields in the order in which they are written. -/
  | object (fields : List (String × Json))
deriving Repr, Inhabited

namespace Json

def nat (n : Nat) : Json := .int n

/-- An absent value is written as null. -/
def ofOption {α : Type} (f : α → Json) : Option α → Json
  | some a => f a
  | none => .null

def field? (key : String) : Json → Option Json
  | .object fields => (fields.find? (·.1 == key)).map (·.2)
  | _ => none

/-- Every field of a key but the last one is lost, and fields stand in the order of their keys. -/
def insertField (key : String) (value : Json) : List (String × Json) → List (String × Json)
  | [] => [(key, value)]
  | (k, v) :: fields =>
    if key = k then (key, value) :: fields
    else if key < k then (key, value) :: (k, v) :: fields
    else (k, v) :: insertField key value fields

end Json

end Scratchpad
