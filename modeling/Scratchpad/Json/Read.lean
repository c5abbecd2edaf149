import Scratchpad.Json.Number

/-!
Reading of JSON text. The text is cut into marks and the marks are put together on a stack of
unfinished arrays and objects. The result is a tree that also holds what has no value: numbers that
are too large and strings with half of a surrogate pair. A part of the tree that nobody reads may
hold such things and may be nested to any depth.
-/
namespace Scratchpad.Json

inductive Tree where
  | null
  | bool (b : Bool)
  /-- None if too large. -/
  | number (value : Option Json)
  /-- None if it holds half of a surrogate pair. -/
  | string (s : Option String)
  | array (items : List Tree)
  | object (fields : List (Option String × Tree))
deriving Inhabited

inductive Mark where
  | scalar (value : Tree)
  | openArray
  | closeArray
  | openObject
  | closeObject
  | colon
  | comma

def hexValue? (c : Char) : Option Nat :=
  if c.isDigit then some (c.toNat - '0'.toNat)
  else if 'a' ≤ c && c ≤ 'f' then some (c.toNat - 'a'.toNat + 10)
  else if 'A' ≤ c && c ≤ 'F' then some (c.toNat - 'A'.toNat + 10)
  else none

def unit? (a b c d : Char) : Option Nat := do
  return (← hexValue? a) * 4096 + (← hexValue? b) * 256 + (← hexValue? c) * 16 + (← hexValue? d)

def simpleEscape? (c : Char) : Option Char :=
  if c = '"' || c = '\\' || c = '/' then some c
  else if c = 'b' then some '\x08'
  else if c = 'f' then some '\x0c'
  else if c = 'n' then some '\n'
  else if c = 'r' then some '\r'
  else if c = 't' then some '\t'
  else none

/-- A string behind its opening quote: its code units, a character or half of a pair each, and the
number of characters read. -/
def readUnits : List Char → Option (List (Char ⊕ Nat) × Nat)
  | [] => none
  | '"' :: _ => some ([], 1)
  | '\\' :: 'u' :: a :: b :: c :: d :: r => do
    let u ← unit? a b c d
    let (us, n) ← readUnits r
    let half := 0xd800 ≤ u && u < 0xe000
    return ((if half then .inr u else .inl (Char.ofNat u)) :: us, n + 6)
  | '\\' :: e :: r => do
    let c ← simpleEscape? e
    let (us, n) ← readUnits r
    return (.inl c :: us, n + 2)
  | c :: r =>
    if c.toNat < 32 || c = '\\' then none
    else do
      let (us, n) ← readUnits r
      return (.inl c :: us, n + 1)

/-- Joins surrogate pairs; none if a half stands alone. -/
def joinPairs : List (Char ⊕ Nat) → Option (List Char)
  | [] => some []
  | .inl c :: r => (joinPairs r).map (c :: ·)
  | .inr high :: .inr low :: r =>
    if high < 0xdc00 && 0xdc00 ≤ low then
      (joinPairs r).map (Char.ofNat (0x10000 + (high - 0xd800) * 0x400 + (low - 0xdc00)) :: ·)
    else none
  | .inr _ :: _ => none

/-- A numeral at the front of a text and the number of its characters. -/
def readNumeral (cs : List Char) : Option (Numeral × Nat) :=
  let negative := cs.head? = some '-'
  let unsigned := if negative then cs.drop 1 else cs
  let whole := unsigned.takeWhile Char.isDigit
  let behindWhole := unsigned.drop whole.length
  let hasFraction := behindWhole.head? = some '.'
  let fraction := if hasFraction then (behindWhole.drop 1).takeWhile Char.isDigit else []
  let behindFraction :=
    if hasFraction then behindWhole.drop (1 + fraction.length) else behindWhole
  let hasExponent := behindFraction.head? = some 'e' || behindFraction.head? = some 'E'
  let behindE := behindFraction.drop 1
  let exponentNegative := behindE.head? = some '-'
  let behindSign :=
    if exponentNegative || behindE.head? = some '+' then behindE.drop 1 else behindE
  let exponent := if hasExponent then behindSign.takeWhile Char.isDigit else []
  let rest := if hasExponent then behindSign.drop exponent.length else behindFraction
  if whole.isEmpty || (whole.head? = some '0' && whole.length ≠ 1)
    || (hasFraction && fraction.isEmpty) || (hasExponent && exponent.isEmpty) then none
  else
    let n : Numeral := ⟨negative, whole, fraction, hasExponent, exponentNegative, exponent⟩
    some (n, cs.length - rest.length)

/-- The mark at the front of `c :: r` and the number of characters it takes of `r`. -/
def readMark (c : Char) (r : List Char) : Option (Mark × Nat) :=
  if c = '[' then some (.openArray, 0)
  else if c = ']' then some (.closeArray, 0)
  else if c = '\x7b' then some (.openObject, 0)
  else if c = '\x7d' then some (.closeObject, 0)
  else if c = ':' then some (.colon, 0)
  else if c = ',' then some (.comma, 0)
  else if c = '"' then
    (readUnits r).map fun (us, n) => (.scalar (.string ((joinPairs us).map .ofList)), n)
  else if c = '-' || c.isDigit then
    (readNumeral (c :: r)).map fun (n, length) => (.scalar (.number n.value), length - 1)
  else if "null".toList.isPrefixOf (c :: r) then some (.scalar .null, 3)
  else if "true".toList.isPrefixOf (c :: r) then some (.scalar (.bool true), 3)
  else if "false".toList.isPrefixOf (c :: r) then some (.scalar (.bool false), 4)
  else none

def isBlank (c : Char) : Bool := c = ' ' || c = '\t' || c = '\n' || c = '\r'

/-- All marks of a text, last one first. -/
def readMarks (done : List Mark) (cs : List Char) : Option (List Mark) :=
  match cs with
  | [] => some done
  | c :: r =>
    if isBlank c then readMarks done r
    else match readMark c r with
    | some (mark, n) => readMarks (mark :: done) (r.drop n)
    | none => none
termination_by cs.length
decreasing_by all_goals simp only [List.length_drop, List.length_cons]; omega

/-- An unfinished array or object; items and fields are collected last one first. -/
inductive Frame where
  | array (items : List Tree)
  | object (fields : List (Option String × Tree)) (key : Option String)

/-- What may come next, around it the unfinished containers. -/
inductive Parse where
  | value (stack : List Frame)
  /-- A first item or the end of the array. -/
  | firstItem (stack : List Frame)
  | key (fields : List (Option String × Tree)) (stack : List Frame)
  /-- A first key or the end of the object. -/
  | firstKey (stack : List Frame)
  | colon (fields : List (Option String × Tree)) (key : Option String) (stack : List Frame)
  | behind (value : Tree) (stack : List Frame)

namespace Parse

/-- A value starts with the mark. -/
def start (stack : List Frame) : Mark → Option Parse
  | .scalar v => some (.behind v stack)
  | .openArray => some (.firstItem stack)
  | .openObject => some (.firstKey stack)
  | _ => none

def step : Parse → Mark → Option Parse
  | .value stack, m => start stack m
  | .firstItem stack, .closeArray => some (.behind (.array []) stack)
  | .firstItem stack, m => start (.array [] :: stack) m
  | .firstKey stack, .closeObject => some (.behind (.object []) stack)
  | .firstKey stack, .scalar (.string k) => some (.colon [] k stack)
  | .key fields stack, .scalar (.string k) => some (.colon fields k stack)
  | .colon fields k stack, .colon => some (.value (.object fields k :: stack))
  | .behind v (.array items :: stack), .comma => some (.value (.array (v :: items) :: stack))
  | .behind v (.array items :: stack), .closeArray =>
    some (.behind (.array (v :: items).reverse) stack)
  | .behind v (.object fields k :: stack), .comma => some (.key ((k, v) :: fields) stack)
  | .behind v (.object fields k :: stack), .closeObject =>
    some (.behind (.object ((k, v) :: fields).reverse) stack)
  | _, _ => none

end Parse

def Tree.read (text : String) : Option Tree := do
  let marks ← readMarks [] text.toList
  match ← marks.reverse.foldlM Parse.step (.value []) with
  | .behind v [] => some v
  | _ => none

mutual

/-- The value of a tree that is nested less than `room` deep and holds nothing without a value. -/
def Tree.value? (room : Nat) : Tree → Option Json
  | .null => some .null
  | .bool b => some (.bool b)
  | .number v => v
  | .string s => s.map .string
  | .array items =>
    match room with
    | r + 2 => (Tree.values? (r + 1) items).map .array
    | _ => none
  | .object fields =>
    match room with
    | r + 2 => (Tree.fields? (r + 1) fields).map .object
    | _ => none

def Tree.values? (room : Nat) : List Tree → Option (List Json)
  | [] => some []
  | t :: ts => do return (← t.value? room) :: (← Tree.values? room ts)

def Tree.fields? (room : Nat) : List (Option String × Tree) → Option (List (String × Json))
  | [] => some []
  | (k, t) :: ts => do
    let key ← k
    let v ← t.value? room
    return (key, v) :: (← Tree.fields? room ts)

end

/-- Values may be nested less than this deep. -/
def depthLimit : Nat := 128

def read (text : String) : Option Json := do (← Tree.read text).value? depthLimit

mutual

/-- Of fields with one key only the last is kept, and fields are put in the order of their keys. -/
def normalize : Json → Json
  | .array items => .array (normalizeItems items)
  | .object fields => .object (normalizeFields [] fields)
  | v => v

def normalizeItems : List Json → List Json
  | [] => []
  | v :: vs => v.normalize :: normalizeItems vs

def normalizeFields (done : List (String × Json)) :
    List (String × Json) → List (String × Json)
  | [] => done
  | (k, v) :: fields => normalizeFields (insertField k v.normalize done) fields

end

end Scratchpad.Json
