import Scratchpad.Json.Basic

/-! TOML values. -/
namespace Scratchpad

open Decimal (Binary64)

inductive Toml where
  | string (s : String)
  | integer (n : Int)
  | float (x : Binary64)
  | boolean (b : Bool)
  /-- A date, a time of day or both, as written. -/
  | datetime (text : String)
  | array (items : List Toml)
  | table (entries : List (String × Toml))
deriving Repr, Inhabited

namespace Toml

/-- The key under which a date stands when it is taken for a table. -/
def datetimeKey : String := "$__toml_private_datetime"

mutual

/-- The same value in JSON; a date is an object with a key of its own. -/
def toJson : Toml → Json
  | .string s => .string s
  | .integer n => .int n
  | .float x => .float x
  | .boolean b => .bool b
  | .datetime text => .object [(datetimeKey, .string text)]
  | .array items => .array (itemsToJson items)
  | .table entries => .object (entriesToJson entries)

def itemsToJson : List Toml → List Json
  | [] => []
  | v :: vs => v.toJson :: itemsToJson vs

def entriesToJson : List (String × Toml) → List (String × Json)
  | [] => []
  | (k, v) :: entries => (k, v.toJson) :: entriesToJson entries

end

end Toml

end Scratchpad
