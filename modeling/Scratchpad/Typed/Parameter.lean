import Scratchpad.Typed.Pass

/-! Parameter lists: annotations, optional marks and access modifiers go, names and defaults stay. -/
namespace Scratchpad.Typed

open Text (Edit)

inductive ParameterKind where
  | function
  | method
  | arrow
  | catch
deriving DecidableEq, Repr

def parameterModifiers : List String := ["public", "private", "protected", "readonly", "override"]

/-- A modifier and not the name of a parameter. -/
def isParameterModifier (o : Outline) (i : Nat) : Bool :=
  parameterModifiers.contains (o.text i)
    && (o.isIdent (i + 1) || o.isAny (i + 1) ["\x7b", "["])

/-- The index behind a pattern or a name. -/
def pastPattern (o : Outline) (i : Nat) : { j : Nat // i < j } :=
  if o.isAny i ["\x7b", "["] then o.past i else ⟨i + 1, Nat.lt_succ_self i⟩

/-- The first comma outside brackets from `j` on, or the end of the list. -/
def defaultEnd (o : Outline) (close j : Nat) : Nat :=
  if j < close then
    if o.is j "," then j
    else
      match o.past j with
      | ⟨next, _⟩ => defaultEnd o close next
  else j
termination_by close - j
decreasing_by omega

/-- One parameter: its edits, the index where the next one starts, and its name if the parameter
also becomes a property. -/
def parameter (o : Outline) (close first : Nat) : List Edit × Nat × Option String :=
  let name := o.skipWhile first (isParameterModifier o)
  let modifiers := (Outline.upTo first name).map (wordRemoval o)
  if o.is name "this" && o.is (name + 1) ":" then
    let stop := (o.pastType (name + 2)).val
    let stop := if o.is stop "," then stop + 1 else stop
    (modifiers ++ [removal o name (stop - 1)], stop, none)
  else
    let name := if o.is name "..." then name + 1 else name
    let behind := (pastPattern o name).val
    let optional := o.is behind "?"
    let mark := if optional then [removal o behind behind] else []
    let (type, behind) := typeAt o (if optional then behind + 1 else behind)
    let behind := if o.is behind "=" then defaultEnd o close behind else behind
    let next :=
      if o.is behind "," then behind + 1
      else o.skipWhile behind fun j => j < close && !o.is j ","
    let isProperty := !modifiers.isEmpty && o.isIdent name
    (modifiers ++ mark ++ type, next, if isProperty then some (o.text name) else none)

/-- The parameters from `j` on: edits and the names that become properties. -/
def parametersFrom (o : Outline) (close j : Nat) : List Edit × List String :=
  if j < close then
    match parameter o close j with
    | (edits, next, property) =>
      match parametersFrom o close (max next (j + 1)) with
      | (edits', properties) => (edits ++ edits', property.toList ++ properties)
  else ([], [])
termination_by close - j
decreasing_by omega

/-- The place in a constructor's body behind the call of `super`, or else behind the brace, and what
has to be written there first. -/
def propertyPlace (o : Outline) (body close j : Nat) : Nat × String :=
  if j < close then
    if o.is j "super" && o.is (j + 1) "(" then
      match o.closing? (j + 1) with
      | some ⟨c, _⟩ => if o.is (c + 1) ";" then (o.stop (c + 1), "") else (o.stop c, ";")
      | none => (o.stop body, "")
    else
      match o.past j with
      | ⟨next, _⟩ => propertyPlace o body close next
  else (o.stop body, "")
termination_by close - j
decreasing_by omega

/-- Stores the parameters that are properties when the body starts to run. -/
def propertyEdits (o : Outline) (body : Nat) (names : List String) : List Edit :=
  match o.closing? body with
  | some ⟨close, _⟩ =>
    let (at_, separator) := propertyPlace o body close (body + 1)
    [.openAt at_ (separator ++ .join (names.map fun name => s!" this.{name} = {name};"))]
  | none => []

/-- A parameter list that opens at `i` and the result type behind it. A function without a body,
declared at `declaration`, goes as a whole. -/
def parameterEdits (o : Outline) (kind : ParameterKind) (declaration i : Nat) : List Edit :=
  match o.closing? i with
  | none => []
  | some ⟨close, _⟩ =>
    let (edits, properties) := parametersFrom o close (i + 1)
    let (result, behind) := if kind = .catch then ([], close + 1) else typeAt o (close + 1)
    let rest :=
      if kind = .function && !o.is behind "\x7b" then
        [removal o declaration (if o.is behind ";" then behind else behind - 1)]
      else if kind = .method && !properties.isEmpty && o.is behind "\x7b" then
        propertyEdits o behind properties
      else []
    edits ++ result ++ rest

/-- A parameter list is stripped once, whatever construct comes upon it first. -/
def Pass.parameters (o : Outline) (kind : ParameterKind) (declaration i : Nat) (s : Pass) : Pass :=
  if s.stripped.contains i then s
  else { s with stripped := i :: s.stripped }.add (parameterEdits o kind declaration i)

end Scratchpad.Typed
