import Scratchpad.Typed.Pass

/-! Annotations of `let`, `const` and `var` bindings. -/
namespace Scratchpad.Typed

open Text (Edit)

/-- The index behind the comma that ends an initial value, if another binding follows. -/
def pastInitializer (o : Outline) (j : Nat) : Option { k : Nat // j < k } :=
  if _h : j < o.size then
    if o.is j "," then some ⟨j + 1, Nat.lt_succ_self j⟩
    else if o.is j ";" || (o.newlineBefore j && !o.continues (j - 1) j)
        || (o.isOpener j && (o.closing? j).isNone) then none
    else
      match o.past j with
      | ⟨next, hn⟩ => (pastInitializer o next).map fun ⟨k, hk⟩ => ⟨k, Nat.lt_trans hn hk⟩
  else none
termination_by o.size - j
decreasing_by omega

/-- One binding: its edits and the index behind its name and type, if it has a name. -/
def bindingHead (o : Outline) (j : Nat) : Option (List Edit × Nat) := do
  let behind ←
    if o.isIdent j then some (j + 1)
    else if o.isAny j ["\x7b", "["] then (o.closing? j).map (·.val + 1)
    else none
  let definite := o.is behind "!" && o.is (behind + 1) ":"
  let mark := if definite then [removal o behind behind] else []
  let (type, behind) := typeAt o (if definite then behind + 1 else behind)
  return (mark ++ type, behind)

/-- The bindings from `j` on. -/
def bindingEdits (o : Outline) (j : Nat) : List Edit :=
  if j < o.size then
    match bindingHead o j with
    | none => []
    | some (edits, behind) =>
      let next? : Option Nat :=
        if o.is behind "=" then (pastInitializer o (behind + 1)).map (·.val)
        else if o.is behind "," then some (behind + 1)
        else none
      match next? with
      | some next => edits ++ bindingEdits o (max next (j + 1))
      | none => edits
  else []
termination_by o.size - j
decreasing_by omega

end Scratchpad.Typed
