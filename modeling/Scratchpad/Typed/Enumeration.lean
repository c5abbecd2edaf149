import Scratchpad.Typed.Pass

/-! Enumerations become frozen objects that map keys to values and numbers back to keys. -/
namespace Scratchpad.Typed

open Text (Diagnostic Fault Edit)

def faultAt (o : Outline) (i : Nat) (fault : Fault) : Diagnostic := { o.position i with fault }

/-- How a member gets its value. -/
inductive MemberValue where
  | implicit
  /-- A lone string or template; such a member has no entry by value. -/
  | text (source : String)
  /-- A lone number literal or any other expression. -/
  | expression (source : String) (literal : Option Nat)
deriving DecidableEq, Repr

structure Member where
  key : String
  value : MemberValue
deriving DecidableEq, Repr

/-- A whole number in decimal that fits 63 bits. -/
def integerLiteral? (text : String) : Option Nat :=
  let value := text.toList.foldl (fun n c => n * 10 + (c.toNat - '0'.toNat)) 0
  if text.toList.all Char.isDigit && value < Nat.pow 2 63 then some value else none

/-- The first comma outside brackets from `j` on, or the end of the members. -/
def initializerEnd (o : Outline) (close j : Nat) : Nat :=
  if j < close then
    if o.is j "," then j
    else
      match o.past j with
      | ⟨next, _⟩ => initializerEnd o close next
  else j
termination_by close - j
decreasing_by omega

def memberKey (o : Outline) (i : Nat) : Except Diagnostic String :=
  match o.kind? i with
  | some .ident => .ok (o.text i)
  | some .string => .ok (.ofList ((o.text i).toList.drop 1).dropLast)
  | _ => .error (faultAt o i .enumWithoutKey)

/-- The value of a member with an equals sign at `i`, and the index behind it. -/
def memberValue (o : Outline) (close i : Nat) : Except Diagnostic (MemberValue × Nat) :=
  let first := i + 1
  let stop := initializerEnd o close first
  if stop = first then .error (faultAt o i .enumWithoutInitializer)
  else
    let source := String.ofList (Text.slice o.source (o.start first) (o.stop (stop - 1)))
    let lone := stop - first = 1
    .ok <|
      if lone && (o.kind? first == some .string || o.kind? first == some .template) then
        (.text source, stop)
      else
        let literal :=
          if lone && o.kind? first == some .number then integerLiteral? source else none
        (.expression source literal, stop)

/-- The members from `j` on. -/
def enumMembers (o : Outline) (close j : Nat) : Except Diagnostic (List Member) :=
  if j < close then do
    let key ← memberKey o j
    let (value, behind) ←
      if o.is (j + 1) "=" then memberValue o close (j + 1) else .ok (.implicit, j + 1)
    let next := if o.is behind "," then behind + 1 else behind
    let rest ← enumMembers o close (max next (j + 1))
    return ⟨key, value⟩ :: rest
  else .ok []
termination_by close - j
decreasing_by omega

/-- The value that an implicit member takes: a number if it is known, else one more than the value of
the member before. -/
def implicitValue (name : String) (next : Option Nat) (previous : Option String) : String :=
  match next, previous with
  | some n, _ => toString n
  | none, some key => s!"{name}[\"{key}\"] + 1"
  | none, none => "0"

/-- The assignment for a member, and the number of an implicit member behind it if it is known. -/
def Member.assignment (name : String) (next : Option Nat) (previous : Option String)
    (m : Member) : String × Option Nat :=
  let both (value : String) : String := s!"{name}[{name}[\"{m.key}\"] = {value}] = \"{m.key}\"; "
  match m.value with
  | .text source => (s!"{name}[\"{m.key}\"] = {source}; ", none)
  | .expression source literal => (both source, literal.map (· + 1))
  | .implicit => (both (implicitValue name next previous), next.map (· + 1))

def assignments (name : String) (next : Option Nat) (previous : Option String) :
    List Member → String
  | [] => ""
  | m :: ms =>
    let (text, next') := m.assignment name next previous
    text ++ assignments name next' (some m.key) ms

/-- An enumeration that starts at `start` with its keyword at `keyword`: the edits and the index
behind it. -/
def enumeration (o : Outline) (start keyword : Nat) : Except Diagnostic (List Edit × Nat) := do
  let name := o.text (keyword + 1)
  let brace := keyword + 2
  if !o.is brace "\x7b" then throw (faultAt o brace .enumWithoutBody)
  match o.closing? brace with
  | none => throw (faultAt o brace .enumWithoutEnd)
  | some ⟨close, _⟩ =>
    let members ← enumMembers o close (brace + 1)
    let first := o.start start
    let last := o.stop close
    let body := assignments name (some 0) none members
    let text := s!"const {name} = Object.freeze((function ({name}) \x7b {body}return {name}; "
      ++ "\x7d)(\x7b\x7d));" ++ Edit.lineBreaks (Text.slice o.source first last)
    return ([⟨first, last, .replace, text⟩], close + 1)

end Scratchpad.Typed
