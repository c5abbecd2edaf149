import Scratchpad.Script.Statement

/-! How far types and lists of type arguments reach in typed script code. -/
namespace Scratchpad.Typed

/-- Words that may stand in front of a type. -/
def typePrefixes : List String :=
  ["keyof", "typeof", "readonly", "unique", "infer", "asserts", "new", "abstract"]

/-- Tokens that may stand in a list of type arguments. -/
def fitsTypeArgument (kind : Option Token.Kind) (text : String) : Bool :=
  match kind with
  | some .punct => [
    ",", ".", "[", "]", "(", ")", "\x7b", "\x7d", "|", "&", "<", ">", ">>", ">>>", ":", ";", "?",
    "=>", "=", "...", "-"].contains text
  | some .regex => false
  | some _ => true
  | none => false

/-- Angle brackets that a token opens, or closes if negative. -/
def angles : String → Int
  | "<" => 1
  | ">" => -1
  | ">>" => -2
  | ">>>" => -3
  | _ => 0

/-- Tokens that no list of type arguments reaches beyond. -/
def endsAngles (text : String) : Bool := [";", ")", "]", "\x7d", "&&", "||"].contains text

end Scratchpad.Typed

namespace Scratchpad.Outline

open Typed

variable (o : Outline)

def isName (i : Nat) : Bool := o.isIdent i && !Script.isKeyword (o.text i)

/-- The index behind the angle brackets, `depth` of them being open in front of `j`. -/
def pastAnglesFrom (depth : Int) (j : Nat) : Option { k : Nat // j < k } :=
  if _h : j < o.size then
    if endsAngles (o.text j) then none
    else
      let depth' := depth + angles (o.text j)
      if o.isOpener j && (o.closing? j).isNone then none
      else
        match o.past j with
        | ⟨next, hn⟩ =>
          if depth' ≤ 0 then some ⟨next, hn⟩
          else
            match pastAnglesFrom depth' next with
            | some ⟨k, hk⟩ => some ⟨k, Nat.lt_trans hn hk⟩
            | none => none
  else none
termination_by o.size - j
decreasing_by omega

/-- The index behind the angle brackets that open at `i`. -/
def pastAngles (i : Nat) : Option { k : Nat // i < k } := o.pastAnglesFrom 0 i

/-- The index behind type arguments and array brackets that follow a type on its line. -/
def pastTypeSuffixes (i : Nat) : { k : Nat // i ≤ k } :=
  if _h : i < o.size then
    let next? : Option { k : Nat // i < k } :=
      if o.newlineBefore i then none
      else if o.is i "<" then o.pastAngles i
      else if o.is i "[" then (o.closing? i).map fun ⟨c, h⟩ => ⟨c + 1, Nat.lt_add_right 1 h⟩
      else none
    match next? with
    | some ⟨next, hn⟩ =>
      match pastTypeSuffixes next with
      | ⟨k, hk⟩ => ⟨k, Nat.le_trans (Nat.le_of_lt hn) hk⟩
    | none => ⟨i, Nat.le_refl i⟩
  else ⟨i, Nat.le_refl i⟩
termination_by o.size - i
decreasing_by omega

/-- The index behind the words that stand in front of a type. -/
def pastTypePrefixes (i : Nat) : { k : Nat // i ≤ k } :=
  ⟨o.skipWhile i fun j => typePrefixes.contains (o.text j) && j + 1 < o.size
    && !o.isAny (j + 1) [",", ")", "]", ">", "=", ";", "|", "&"], Nat.le_add_right _ _⟩

/-- The index behind a dotted name of which `i` is behind the first part. -/
def pastMembers (i : Nat) : { k : Nat // i ≤ k } :=
  if _h : i < o.size then
    if o.is i "." && o.isIdent (i + 1) then
      match pastMembers (i + 2) with
      | ⟨k, hk⟩ => ⟨k, Nat.le_of_add_right_le hk⟩
    else ⟨i, Nat.le_refl i⟩
  else ⟨i, Nat.le_refl i⟩
termination_by o.size - i
decreasing_by omega

/-- What stands at the front of a type. -/
inductive TypeHead (i : Nat) where
  | missing
  /-- A function type; its result starts here. -/
  | function (result : { k : Nat // i < k })
  /-- Anything else; its suffixes start here. -/
  | plain (next : { k : Nat // i < k })

/-- The head of the type whose first token behind the prefixes is `i`. -/
def typeHead (i : Nat) : TypeHead i :=
  match o.kind? i, o.text i with
  | some .punct, "(" =>
    match o.closing? i with
    | some ⟨c, h⟩ =>
      if o.is (c + 1) "=>" then .function ⟨c + 2, Nat.lt_add_right 2 h⟩
      else .plain ⟨c + 1, Nat.lt_add_right 1 h⟩
    | none => .missing
  | some .punct, "\x7b" | some .punct, "[" =>
    match o.closing? i with
    | some ⟨c, h⟩ => .plain ⟨c + 1, Nat.lt_add_right 1 h⟩
    | none => .missing
  | some .punct, "<" =>
    match o.pastAngles i with
    | some ⟨open_, h⟩ =>
      match o.closingOf? open_ "(" with
      | some ⟨c, h'⟩ =>
        if o.is (c + 1) "=>" then .function ⟨c + 2, Nat.lt_add_right 2 (Nat.lt_trans h h')⟩
        else .missing
      | none => .missing
    | none => .missing
  | some .punct, "-" =>
    if o.kind? (i + 1) == some .number then .plain ⟨i + 2, Nat.lt_add_right 1 i.lt_succ_self⟩
    else .missing
  | some .ident, _ =>
    match o.pastMembers (i + 1) with
    | ⟨k, h⟩ => .plain ⟨k, Nat.lt_of_succ_le h⟩
  | some .number, _ | some .string, _ | some .template, _ => .plain ⟨i + 1, i.lt_succ_self⟩
  | _, _ => .missing

mutual

/-- The index behind the type at `i`; a bar or an ampersand may stand in front of it. It is `i`
itself, or behind the bar, if no type is there. -/
def pastType (i : Nat) : { k : Nat // i ≤ k } :=
  if o.isAny i ["|", "&"] then
    match pastUnion (i + 1) with
    | ⟨k, h⟩ => ⟨k, by omega⟩
  else pastUnion i
termination_by (o.size - i, 2)
decreasing_by all_goals omega

/-- The index behind types joined by bars and ampersands, and behind a condition on them. -/
def pastUnion (i : Nat) : { k : Nat // i ≤ k } :=
  if hi : i < o.size then
    match pastTypeOperand i with
    | ⟨next, hn⟩ =>
      if hne : next = i then ⟨i, Nat.le_refl i⟩
      else if o.isAny next ["|", "&"] then
        match pastUnion (next + 1) with
        | ⟨k, h⟩ => ⟨k, by omega⟩
      else if o.is next "extends" && !o.newlineBefore next then
        match pastType (next + 1) with
        | ⟨tested, ht⟩ =>
          if o.is tested "?" then
            match pastType (tested + 1) with
            | ⟨yes, hy⟩ =>
              if o.is yes ":" then
                match pastType (yes + 1) with
                | ⟨no, h⟩ => ⟨no, by omega⟩
              else ⟨yes, by omega⟩
          else ⟨tested, by omega⟩
      else if o.is next "is" && !o.newlineBefore next then
        match pastType (next + 1) with
        | ⟨k, h⟩ => ⟨k, by omega⟩
      else ⟨next, hn⟩
  else ⟨i, Nat.le_refl i⟩
termination_by (o.size - i, 1)
decreasing_by all_goals omega

/-- The index behind one member of a union. -/
def pastTypeOperand (i : Nat) : { k : Nat // i ≤ k } :=
  match o.pastTypePrefixes i with
  | ⟨j, hj⟩ =>
    if hs : j < o.size then
      match o.typeHead j with
      | .missing => ⟨i, Nat.le_refl i⟩
      | .function ⟨result, hr⟩ =>
        match pastType result with
        | ⟨k, h⟩ => ⟨k, by omega⟩
      | .plain ⟨next, hn⟩ =>
        match o.pastTypeSuffixes next with
        | ⟨k, h⟩ => ⟨k, by omega⟩
    else ⟨i, Nat.le_refl i⟩
termination_by (o.size - i, 0)
decreasing_by all_goals omega

end

end Scratchpad.Outline
