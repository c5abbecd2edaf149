import Scratchpad.Typed.Enumeration

/-! Namespaces become functions that fill an object; what is exported is copied at the end. -/
namespace Scratchpad.Typed

open Text (Diagnostic Edit)

/-- The index behind the comma before the next declared name, if there is one. -/
def pastDeclarator (o : Outline) (limit j : Nat) : Option { k : Nat // j < k } :=
  if j < limit then
    if o.is j ";" || (o.newlineBefore j && !o.continues (j - 1) j) then none
    else if o.is j "," then some ⟨j + 1, Nat.lt_succ_self j⟩
    else
      match o.past j with
      | ⟨next, hn⟩ => (pastDeclarator o limit next).map fun ⟨k, hk⟩ => ⟨k, Nat.lt_trans hn hk⟩
  else none
termination_by limit - j
decreasing_by omega

/-- Names bound by the declarators from `j` on. -/
def declaratorNames (o : Outline) (limit j : Nat) : Except Diagnostic (List String) :=
  if !o.isName j then .error (faultAt o j .patternInNamespaceExport)
  else
    let behind := if o.is (j + 1) ":" then (o.pastType (j + 2)).val else j + 1
    match pastDeclarator o limit behind with
    | some ⟨next, _⟩ =>
      if _h : j < next ∧ j < o.size then do
        return o.text j :: (← declaratorNames o limit next)
      else .ok [o.text j]
    | none => .ok [o.text j]
termination_by o.size - j
decreasing_by omega

def nameAt (o : Outline) (i : Nat) : List String := if o.isName i then [o.text i] else []

/-- Names of values that the declaration behind an `export` declares. -/
def exportedNames (o : Outline) (limit i : Nat) : Except Diagnostic (List String) :=
  let k := o.skipWhile i fun j => o.isAny j ["async", "abstract", "default"]
  match o.text k with
  | "const" =>
    if o.is (k + 1) "enum" then .ok (nameAt o (k + 2)) else declaratorNames o limit (k + 1)
  | "let" | "var" => declaratorNames o limit (k + 1)
  | "function" => .ok (nameAt o (if o.is (k + 1) "*" then k + 2 else k + 1))
  | "class" | "enum" | "namespace" | "module" => .ok (nameAt o (k + 1))
  | _ => .ok []

/-- Names exported by the statements from `j` on, bracket groups passed over. -/
def allExportedNames (o : Outline) (close j : Nat) : Except Diagnostic (List String) :=
  if j < close then
    match o.past j with
    | ⟨next, _⟩ => do
      let names ←
        if o.is j "export" && o.startsStatement j then exportedNames o close (j + 1) else .ok []
      return names ++ (← allExportedNames o close next)
  else .ok []
termination_by close - j
decreasing_by omega

/-- The namespace whose keyword is at `keyword`: the edits and the index where reading goes on. -/
def namespaceAt (o : Outline) (keyword : Nat) : Except Diagnostic (List Edit × Nat) := do
  let name := o.text (keyword + 1)
  let brace := keyword + 2
  if o.is brace "." then throw (faultAt o brace .dottedNamespace)
  match o.closing? brace with
  | none => throw (faultAt o brace .namespaceWithoutEnd)
  | some ⟨close, _⟩ =>
    let names ← allExportedNames o close (brace + 1)
    let first := o.start keyword
    let last := o.stop brace
    let head := s!"var {name} = (function ({name}) \x7b"
      ++ Edit.lineBreaks (Text.slice o.source first last)
    let copies := String.join (names.map fun x => s!"{name}.{x} = {x}; ")
    let tail := s!"; {copies}return {name}; \x7d)({name} || \x7b\x7d);"
    return ([⟨first, last, .replace, head⟩, ⟨o.start close, o.stop close, .replace, tail⟩],
      brace + 1)

end Scratchpad.Typed
