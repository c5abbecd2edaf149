import Scratchpad.Typed.Parameter

/-! Classes: type parameters, `implements`, modifiers and members that are types only. -/
namespace Scratchpad.Typed

open Text (Edit)

def memberModifiers : List String :=
  ["public", "private", "protected", "readonly", "abstract", "override", "declare"]

/-- Modifiers that mean something at run time. -/
def keptModifiers : List String := ["static", "async", "get", "set", "accessor"]

/-- Like `Outline.continues`, but a bracket, a star or a template on a new line starts a member. -/
def continuesMember (o : Outline) (last next : Nat) : Bool :=
  if o.newlineBefore next && (o.isAny next ["(", "[", "*"] || o.kind? next == some .template) then
    o.isOpenEnded last
  else o.continues last next

/-- The index behind the member that has come as far as `j`. -/
def pastMember (o : Outline) (limit j : Nat) : Nat :=
  if j < limit then
    if o.is j ";" then j + 1
    else if !continuesMember o (j - 1) j then j
    else
      match o.past j with
      | ⟨next, _⟩ => pastMember o limit next
  else j
termination_by limit - j
decreasing_by omega

/-- The index behind the decorators at `j`. -/
def pastDecorators (o : Outline) (j : Nat) : Nat :=
  if j < o.size then
    if o.is j "@" then
      let name := o.skipWhile (j + 1) fun k => o.isIdent k || o.is k "."
      let behind := if o.is name "(" then (o.past name).val else name
      pastDecorators o (max behind (j + 1))
    else j
  else j
termination_by o.size - j
decreasing_by omega

/-- A word in front of a member's name. -/
def isMemberModifier (o : Outline) (close i : Nat) : Bool :=
  (memberModifiers.contains (o.text i) || keptModifiers.contains (o.text i))
    && (o.isIdent (i + 1) || o.isAny (i + 1) ["[", "*"]
      || o.kind? (i + 1) == some .string || o.kind? (i + 1) == some .number)
    && i + 1 < close

/-- One class member that starts at `first`; the result also tells where the next one starts. -/
def Pass.member (o : Outline) (close first : Nat) (s : Pass) : Pass × Nat :=
  if o.is first ";" then (s, first + 1)
  else
    let word := pastDecorators o first
    let start := o.skipWhile word (isMemberModifier o close)
    let modifiers := (Outline.upTo word start).filter fun i =>
      memberModifiers.contains (o.text i)
    let typeOnly := modifiers.any fun i => o.isAny i ["abstract", "declare"]
    let dropThrough (next : Nat) : Pass × Nat := (s.remove o first (next - 1), next)
    if o.is start "\x7b" then (s, (o.past start).val)
    else if o.is start "[" && o.isIdent (start + 1) && o.is (start + 2) ":" then
      dropThrough (pastMember o close (o.past start).val)
    else
      let name := if o.is start "*" then start + 1 else start
      let behind := if o.is name "[" then (o.past name).val else name + 1
      let marked := o.is behind "?" || (o.is behind "!" && o.is (behind + 1) ":")
      let mark := if marked then [removal o behind behind] else []
      let behind := if marked then behind + 1 else behind
      let (generics, behind) :=
        match if o.is behind "<" then o.pastAngles behind else none with
        | some ⟨next, _⟩ => ([removal o behind (next - 1)], next)
        | none => ([], behind)
      let typing := modifiers.map (wordRemoval o) ++ mark ++ generics
      if o.is behind "(" then
        let body := (typeAt o (o.past behind).val).2
        if o.is body "\x7b" && !typeOnly then
          ((s.add typing).parameters o .method name behind, (o.past body).val)
        else dropThrough (pastMember o close body)
      else if typeOnly then dropThrough (pastMember o close behind)
      else
        let (type, behind) := typeAt o behind
        (s.add (typing ++ type), pastMember o close behind)

def Pass.membersFrom (o : Outline) (close j : Nat) (s : Pass) : Pass :=
  if j < close then
    match s.member o close j with
    | (s', next) => membersFrom o close (max next (j + 1)) s'
  else s
termination_by close - j
decreasing_by omega

/-- The index of the brace or of `implements` behind the base class, and what goes on the way. -/
def baseClass (o : Outline) (j : Nat) : List Edit × Nat :=
  if j < o.size then
    if o.isAny j ["\x7b", "implements"] then ([], j)
    else
      match if o.is j "<" then o.pastAngles j else none with
      | some ⟨next, _⟩ =>
        if o.isAny next ["\x7b", "implements"] then ([removal o j (next - 1)], next)
        else baseClass o (j + 1)
      | none =>
        match o.past j with
        | ⟨next, _⟩ => baseClass o next
  else ([], j)
termination_by o.size - j
decreasing_by all_goals omega

/-- The class whose keyword is at `i`; the result also tells where reading goes on. -/
def Pass.classAt (o : Outline) (i : Nat) (s : Pass) : Pass × Nat :=
  let j := if o.isName (i + 1) && !o.is (i + 1) "implements" then i + 2 else i + 1
  let (generics, j) :=
    match if o.is j "<" then o.pastAngles j else none with
    | some ⟨next, _⟩ => ([removal o j (next - 1)], next)
    | none => ([], j)
  let (base, j) := if o.is j "extends" then baseClass o (j + 1) else ([], j)
  let brace := if o.is j "implements" then o.skipWhile j (!o.is · "\x7b") else j
  let s := s.add (generics ++ base ++ removalUpTo o j brace)
  match o.closingOf? brace "\x7b" with
  | some ⟨close, _⟩ => (s.membersFrom o close (brace + 1), brace + 1)
  | none => (s, i + 1)

end Scratchpad.Typed
