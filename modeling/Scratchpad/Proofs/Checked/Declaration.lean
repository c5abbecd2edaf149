import Scratchpad.Proofs.Checked.Extent
import Scratchpad.Typed.Binding
import Scratchpad.Typed.Class

/-!
Parameter lists, bindings and classes stripped with care: what goes is there, and all lists end.
-/
namespace Scratchpad.Checked

open Text (Edit)

noncomputable section

/-! ### Parameters -/

/-- The index behind the comma of the parameter that has come as far as `j`, or the end of the list. -/
def pastComma (o : Outline) (close j : Nat) : Option Nat :=
  if o.is j "," then some (j + 1) else skip (fun k => k < close && !o.is k ",") j

/-- The parameter that stands for the receiver goes with its type and the comma behind it. -/
def receiver (o : Outline) (name : Nat) : Option (List Edit × Nat) :=
  let stop := (o.pastType (name + 2)).val
  let stop := if o.is stop "," then stop + 1 else stop
  (removal o name (stop - 1)).map fun e => ([e], stop)

/-- One parameter: its edits, where the next one starts, and the name of the property it is. -/
def parameter (o : Outline) (close first : Nat) : Option (List Edit × Nat × Option String) := do
  let name ← skip (Typed.isParameterModifier o) first
  let modifiers ← wordRemovals o (Outline.upTo first name)
  if o.is name "this" && o.is (name + 1) ":" then
    let (edits, stop) ← receiver o name
    return (modifiers ++ edits, stop, none)
  else
    let name := if o.is name "..." then name + 1 else name
    let behind := (Typed.pastPattern o name).val
    let optional := o.is behind "?"
    let mark ← given optional (removal o behind behind)
    let (type, behind) ← typeAt o (if optional then behind + 1 else behind)
    let behind := if o.is behind "=" then Typed.defaultEnd o close behind else behind
    let next ← pastComma o close behind
    let isProperty := !modifiers.isEmpty && o.isIdent name
    return (modifiers ++ mark ++ type, next, if isProperty then some (o.text name) else none)

/-- Parameters found up to `j`, and what comes with the one there. -/
def parametersTurn (o : Outline) (close : Nat) (edits : List Edit) (names : List String) (j : Nat) :
    Option (Turn (List Edit × List String × Nat) (List Edit × List String)) := do
  if close ≤ j then return .done (edits, names)
  let (found, next, property) ← parameter o close j
  return .again (edits ++ found, names ++ property.toList, next)

def parameters (o : Outline) (close j : Nat) : Option (List Edit × List String) :=
  loop (fun s => parametersTurn o close s.1 s.2.1 s.2.2) ([], [], j)

def placeTurn (o : Outline) (body close j : Nat) : Option (Turn Nat (Nat × String)) := do
  let behindBrace ← reading o [body] (o.stop body)
  if close ≤ j then return .done (behindBrace, "")
  if !(o.is j "super" && o.is (j + 1) "(") then return .again (o.past j).val
  match o.closing? (j + 1) with
  | none => return .done (behindBrace, "")
  | some c =>
    if o.is (c + 1) ";" then return .done (← reading o [c.val + 1] (o.stop (c + 1)), "")
    else return .done (← reading o [c.val] (o.stop c), ";")

def propertyEdits (o : Outline) (body : Nat) (names : List String) : Option (List Edit) :=
  match o.closing? body with
  | some close => do
    let (at_, separator) ← loop (placeTurn o body close) (body + 1)
    return [.openAt at_ (separator ++ .join (names.map fun name => s!" this.{name} = {name};"))]
  | none => some []

/-- The result type behind a parameter list that ends in front of `i`; a `catch` has none. -/
def resultType (o : Outline) (kind : Typed.ParameterKind) (i : Nat) : Option (List Edit × Nat) :=
  if kind = .catch then some ([], i) else typeAt o i

/-- What a parameter list asks for in front of its body, which is at `i`, or for want of one. -/
def bodyEdits (o : Outline) (kind : Typed.ParameterKind) (declaration i : Nat)
    (properties : List String) : Option (List Edit) :=
  if kind = .function && !o.is i "\x7b" then
    given true (removal o declaration (if o.is i ";" then i else i - 1))
  else if kind = .method && !properties.isEmpty && o.is i "\x7b" then propertyEdits o i properties
  else some []

/-- A parameter list that opens at `i` and the result type behind it. -/
def parameterEdits (o : Outline) (kind : Typed.ParameterKind) (declaration i : Nat) :
    Option (List Edit) :=
  match o.closing? i with
  | none => some []
  | some close => do
    let (edits, properties) ← parameters o close (i + 1)
    let (result, behind) ← resultType o kind (close + 1)
    return edits ++ result ++ (← bodyEdits o kind declaration behind properties)

def parameterList (o : Outline) (kind : Typed.ParameterKind) (declaration i : Nat) (s : Typed.Pass) :
    Option Typed.Pass :=
  if s.stripped.contains i then some s
  else (parameterEdits o kind declaration i).map { s with stripped := i :: s.stripped }.add

/-! ### Bindings -/

def initializerTurn (o : Outline) (j : Nat) : Option (Turn Nat (Option Nat)) := do
  if o.size ≤ j then return .done none
  if o.is j "," then return .done (some (j + 1))
  let goesOn ← continues o (j - 1) j
  if o.is j ";" || (o.newlineBefore j && !goesOn) || (o.isOpener j && (o.closing? j).isNone) then
    return .done none
  return .again (o.past j).val

/-- The index behind the comma that ends an initial value, if another binding follows. -/
def pastInitializer (o : Outline) (j : Nat) : Option (Option Nat) := loop (initializerTurn o) j

/-- The index behind what is bound at `j`, if something is. -/
def pastBound (o : Outline) (j : Nat) : Option Nat :=
  if o.isIdent j then some (j + 1)
  else if o.isAny j ["\x7b", "["] then (o.closing? j).map (·.val + 1)
  else none

/-- One binding: its edits and the index behind its name and type, if it has a name. -/
def bindingHead (o : Outline) (j : Nat) : Option (Option (List Edit × Nat)) :=
  match pastBound o j with
  | none => some none
  | some behind => do
    let definite := o.is behind "!" && o.is (behind + 1) ":"
    let mark ← given definite (removal o behind behind)
    let (type, behind) ← typeAt o (if definite then behind + 1 else behind)
    return some (mark ++ type, behind)

/-- Where the next binding starts, if the one that has come as far as `j` is not the last. -/
def nextBinding (o : Outline) (j : Nat) : Option (Option Nat) :=
  if o.is j "=" then pastInitializer o (j + 1) else some (if o.is j "," then some (j + 1) else none)

def bindingTurn (o : Outline) (edits : List Edit) (j : Nat) :
    Option (Turn (List Edit × Nat) (List Edit)) := do
  match ← bindingHead o j with
  | none => return .done edits
  | some (found, behind) =>
    return match ← nextBinding o behind with
      | some next => .again (edits ++ found, next)
      | none => .done (edits ++ found)

def bindingEdits (o : Outline) (j : Nat) : Option (List Edit) :=
  loop (fun s => bindingTurn o s.1 s.2) ([], j)

end

/-! ### What the readings of lists come to -/

variable {o : Outline} {i j close : Nat}

theorem le_defaultEnd : j ≤ Typed.defaultEnd o close j := by
  fun_induction Typed.defaultEnd o close j with
  | case1 | case3 => exact Nat.le_refl _
  | case2 j hj hcomma next hn hpast ih => exact Nat.le_trans (Nat.le_of_lt hn) ih

theorem lt_parameter : i < (Typed.parameter o close i).2.1 := by
  unfold Typed.parameter
  extract_lets name modifiers stop stop' name' behind optional mark
  have hname : i ≤ name := Outline.le_skipWhile
  split
  · have hstop := (o.pastType (name + 2)).property
    dsimp only [stop', stop]
    split <;> omega
  · have hname' : name ≤ name' := by
      dsimp only [name']
      split <;> omega
    have hbehind := (Typed.pastPattern o name').property
    split
    next type behind' htype =>
    have hle := Typed.le_typeAt (o := o) (i := if optional then behind + 1 else behind)
    rw [htype] at hle
    have hmark : behind ≤ if optional then behind + 1 else behind := by split <;> omega
    extract_lets stop next
    have hstop : behind' ≤ stop := by
      dsimp only [stop]
      split
      · exact le_defaultEnd
      · exact Nat.le_refl _
    have hnext : stop ≤ next := by
      dsimp only [next]
      split
      · exact Nat.le_succ _
      · exact Outline.le_skipWhile
    dsimp only at hle ⊢
    omega

theorem skip_isParameterModifier :
    skip (Typed.isParameterModifier o) i = some (o.skipWhile i (Typed.isParameterModifier o)) := by
  refine skip_eq fun j hj => ?_
  rw [Typed.isParameterModifier, Outline.text_of_le hj]
  rfl

theorem pastComma_eq (hc : close < o.size) : pastComma o close j = some (if o.is j "," then j + 1
    else o.skipWhile j fun k => k < close && !o.is k ",") := by
  unfold pastComma
  split
  · rfl
  · refine skip_eq fun k hk => ?_
    rw [decide_eq_false (by omega), Bool.false_and]

theorem receiver_eq (hw : o.Whole) (h : o.is (i + 1) ":") :
    receiver o i =
      let stop := (o.pastType (i + 2)).val
      let stop := if o.is stop "," then stop + 1 else stop
      some ([Typed.removal o i (stop - 1)], stop) := by
  unfold receiver
  extract_lets stop stop'
  have hstop : stop ≤ o.size := hw.pastType_le (Outline.lt_size_of_is h (by decide))
  have hlt : i + 2 ≤ stop := (o.pastType (i + 2)).property
  have hstop' : i + 2 ≤ stop' ∧ stop' ≤ o.size := by
    dsimp only [stop']
    split
    · next hcomma =>
      have hcomma := Outline.lt_size_of_is hcomma (by decide)
      omega
    · omega
  rw [removal_eq hw (by omega) (by omega)]
  rfl

theorem given_is (hw : o.Whole) {w : String} (h : w ≠ "") : given (o.is i w) (removal o i i)
    = some (if o.is i w then [Typed.removal o i i] else []) :=
  given_eq fun hi => removal_eq hw (Nat.le_refl i) (Outline.lt_size_of_is hi h)

theorem parameter_eq (hw : o.Whole) (hc : close < o.size) :
    parameter o close i = some (Typed.parameter o close i) := by
  have hmark (k : Nat) := given_is (i := k) (w := "?") hw (by decide)
  unfold parameter Typed.parameter
  simp only [skip_isParameterModifier, Option.bind_eq_bind, Option.bind_some, typeAt_eq hw, hmark,
    wordRemovals_eq hw fun k hk => (Outline.of_mem_skipWhile hk).1, pastComma_eq hc]
  split
  · next hthis =>
    rw [receiver_eq hw (Bool.and_eq_true_iff.mp hthis).2]
    rfl
  · rfl

theorem loop_parametersTurn (hw : o.Whole) (hc : close < o.size) (edits : List Edit)
    (names : List String) :
    loop (fun s => parametersTurn o close s.1 s.2.1 s.2.2) (edits, names, j) =
      some (edits ++ (Typed.parametersFrom o close j).1, names ++ (Typed.parametersFrom o close j).2) := by
  fun_induction Typed.parametersFrom o close j generalizing edits names with
  | case1 j hj found next property hparameter found' properties hrest ih =>
    have hlt : j < (Typed.parameter o close j).2.1 := lt_parameter
    rw [hparameter] at hlt
    dsimp only at hlt ih hrest
    rw [Nat.max_eq_left hlt] at ih hrest
    have hturn : parametersTurn o close edits names j
        = some (.again (edits ++ found, names ++ property.toList, next)) := by
      simp [parametersTurn, Nat.not_le.mpr hj, parameter_eq hw hc, hparameter]
    refine (loop_again hturn).trans ?_
    rw [ih, hrest, List.append_assoc, List.append_assoc]
  | case2 j hj => exact loop_done (by simp [parametersTurn, Nat.le_of_not_lt hj])

theorem parameters_eq (hw : o.Whole) (hc : close < o.size) :
    parameters o close j = some (Typed.parametersFrom o close j) := loop_parametersTurn hw hc [] []

theorem loop_placeTurn (hw : o.Whole) {body : Nat} (hb : body < o.size) :
    loop (placeTurn o body close) j = some (Typed.propertyPlace o body close j) := by
  have hbody := reading_one hw hb (x := o.stop body)
  fun_induction Typed.propertyPlace o body close j with
  | case1 j hj hsuper c hc hclosing hsemicolon =>
    have hlt := Outline.lt_size_of_is hsemicolon (by decide)
    exact loop_done (by simp [placeTurn, hbody, Nat.not_le.mpr hj, hsuper, hclosing, hsemicolon,
      reading_one hw hlt])
  | case2 j hj hsuper c hc hclosing hsemicolon =>
    have hlt := hw.closing hclosing
    exact loop_done (by simp [placeTurn, hbody, Nat.not_le.mpr hj, hsuper, hclosing, hsemicolon,
      reading_one hw hlt])
  | case3 j hj hsuper hclosing =>
    exact loop_done (by simp [placeTurn, hbody, Nat.not_le.mpr hj, hsuper, hclosing])
  | case4 j hj hsuper next hnext hpast ih =>
    rw [← ih]
    exact loop_again (by simp [placeTurn, hbody, Nat.not_le.mpr hj, hsuper, hpast])
  | case5 j hj => exact loop_done (by simp [placeTurn, hbody, Nat.not_lt.mp hj])

theorem propertyEdits_eq (hw : o.Whole) (hi : i < o.size) (names : List String) :
    propertyEdits o i names = some (Typed.propertyEdits o i names) := by
  unfold propertyEdits Typed.propertyEdits
  cases o.closing? i with
  | none => rfl
  | some close =>
    simp only [loop_placeTurn hw hi, Option.bind_eq_bind, Option.bind_some]
    rfl

theorem bodyEdits_eq (hw : o.Whole) {kind : Typed.ParameterKind} {declaration : Nat}
    (hd : declaration < i) (hi : i ≤ o.size) (properties : List String) :
    bodyEdits o kind declaration i properties = some (
      if kind = .function && !o.is i "\x7b" then
        [Typed.removal o declaration (if o.is i ";" then i else i - 1)]
      else if kind = .method && !properties.isEmpty && o.is i "\x7b" then
        Typed.propertyEdits o i properties
      else []) := by
  have hremoval : removal o declaration (if o.is i ";" then i else i - 1)
      = some (Typed.removal o declaration (if o.is i ";" then i else i - 1)) := by
    split
    · next hsemicolon =>
      exact removal_eq hw (Nat.le_of_lt hd) (Outline.lt_size_of_is hsemicolon (by decide))
    · exact removal_eq hw (by omega) (by omega)
  unfold bodyEdits
  split
  · rw [given_eq fun _ => hremoval]
    rfl
  · split
    · next hbody =>
      have hbrace := (Bool.and_eq_true_iff.mp hbody).2
      exact propertyEdits_eq hw (Outline.lt_size_of_is hbrace (by decide)) properties
    · rfl

theorem parameterEdits_eq (hw : o.Whole) {kind : Typed.ParameterKind} {declaration : Nat}
    (hd : declaration ≤ i) : parameterEdits o kind declaration i =
      some (Typed.parameterEdits o kind declaration i) := by
  unfold parameterEdits Typed.parameterEdits
  cases hclosing : o.closing? i with
  | none => rfl
  | some c =>
    obtain ⟨close, hclose⟩ := c
    have hlt := hw.closing hclosing
    have hresult : ∃ result behind, resultType o kind (close + 1) = some (result, behind) ∧
        (if kind = .catch then ([], close + 1) else Typed.typeAt o (close + 1)) = (result, behind) ∧
        close < behind ∧ behind ≤ o.size := by
      unfold resultType
      split
      · exact ⟨[], close + 1, rfl, rfl, Nat.lt_succ_self close, hlt⟩
      · exact ⟨_, _, typeAt_eq hw, rfl, Typed.le_typeAt, Typed.typeAt_le hw hlt⟩
    obtain ⟨result, behind, hresult, hpair, hlow, hhigh⟩ := hresult
    have hbehind : declaration < behind := by omega
    have hbody (properties : List String) : bodyEdits o kind declaration behind properties = _ :=
      bodyEdits_eq hw hbehind hhigh properties
    simp only [parameters_eq hw hlt, hresult, hpair, hbody, Option.bind_eq_bind, Option.bind_some]
    rfl

theorem parameterList_eq (hw : o.Whole) {kind : Typed.ParameterKind} {declaration : Nat}
    (hd : declaration ≤ i) (s : Typed.Pass) : parameterList o kind declaration i s =
      some (s.parameters o kind declaration i) := by
  unfold parameterList Typed.Pass.parameters
  split
  · rfl
  · rw [parameterEdits_eq hw hd]
    rfl

/-! ### Bindings -/

theorem pastInitializer_eq (hw : o.Whole) :
    pastInitializer o j = some ((Typed.pastInitializer o j).map Subtype.val) := by
  unfold pastInitializer
  fun_induction Typed.pastInitializer o j with
  | case1 j hj hcomma =>
    exact loop_done (by simp [initializerTurn, Nat.not_le.mpr hj, hcomma])
  | case2 j hj hcomma hends =>
    refine loop_done ?_
    rw [initializerTurn, if_neg (Nat.not_le.mpr hj), if_neg hcomma, continues_pred_eq hw hj]
    exact if_pos hends
  | case3 j hj hcomma hends next hn hpast ih =>
    have hagain : initializerTurn o j = some (.again next) := by
      rw [initializerTurn, if_neg (Nat.not_le.mpr hj), if_neg hcomma, continues_pred_eq hw hj, hpast]
      exact if_neg hends
    rw [loop_again hagain, ih, Option.map_map]
    rfl
  | case4 j hj => exact loop_done (by simp [initializerTurn, Nat.not_lt.mp hj])

/-- A colon may follow a mark that says the name is bound by all means. -/
theorem given_definite (hw : o.Whole) : given (o.is i "!" && o.is (i + 1) ":") (removal o i i)
    = some (if o.is i "!" && o.is (i + 1) ":" then [Typed.removal o i i] else []) := by
  refine given_eq fun hi => ?_
  have hi := Outline.lt_size_of_is (Bool.and_eq_true_iff.mp hi).1 (by decide)
  exact removal_eq hw (Nat.le_refl i) hi

theorem bindingHead_eq_bind : Typed.bindingHead o j = (pastBound o j).bind fun behind =>
    let definite := o.is behind "!" && o.is (behind + 1) ":"
    let mark := if definite then [Typed.removal o behind behind] else []
    let type := Typed.typeAt o (if definite then behind + 1 else behind)
    some (mark ++ type.1, type.2) := by
  unfold Typed.bindingHead pastBound
  split
  · rfl
  · split <;> rfl

theorem bindingHead_eq (hw : o.Whole) : bindingHead o j = some (Typed.bindingHead o j) := by
  rw [bindingHead_eq_bind]
  unfold bindingHead
  cases pastBound o j with
  | none => rfl
  | some behind =>
    simp only [given_definite hw, typeAt_eq hw, Option.bind_eq_bind, Option.bind_some]
    rfl

theorem lt_bindingHead {edits : List Edit} {behind : Nat}
    (h : Typed.bindingHead o j = some (edits, behind)) : j < o.size ∧ j < behind := by
  rw [bindingHead_eq_bind] at h
  obtain ⟨k, hk, heq⟩ := Option.bind_eq_some_iff.mp h
  obtain ⟨-, rfl⟩ := Prod.mk.inj (Option.some.inj heq)
  have hbound : j < o.size ∧ j < k := by
    unfold pastBound at hk
    split at hk
    · next hident => exact ⟨Outline.lt_size_of_isIdent hident, Option.some.inj hk ▸ Nat.lt_succ_self j⟩
    · obtain ⟨hany, hk⟩ := Option.ite_none_right_eq_some.mp hk
      obtain ⟨⟨c, hc⟩, -, rfl⟩ := Option.map_eq_some_iff.mp hk
      exact ⟨Outline.lt_size_of_isAny hany (by decide), Nat.lt_succ_of_lt hc⟩
  have hmark : k ≤ if o.is k "!" && o.is (k + 1) ":" then k + 1 else k := by split <;> omega
  exact ⟨hbound.1, Nat.lt_of_lt_of_le hbound.2 (Nat.le_trans hmark Typed.le_typeAt)⟩

theorem nextBinding_eq (hw : o.Whole) : nextBinding o j =
    some (if o.is j "=" then (Typed.pastInitializer o (j + 1)).map Subtype.val
      else if o.is j "," then some (j + 1) else none) := by
  unfold nextBinding
  split
  · exact pastInitializer_eq hw
  · rfl

theorem loop_bindingTurn (hw : o.Whole) (edits : List Edit) :
    loop (fun s => bindingTurn o s.1 s.2) (edits, j) = some (edits ++ Typed.bindingEdits o j) := by
  fun_induction Typed.bindingEdits o j generalizing edits with
  | case1 j hj hhead =>
    exact loop_done (by simp [bindingTurn, bindingHead_eq hw, hhead])
  | case2 j hj found behind hhead next? next hnext ih =>
    have hbehind := (lt_bindingHead hhead).2
    have hlt : j < next := by
      dsimp only [next?] at hnext
      split at hnext
      · obtain ⟨⟨k, hk⟩, -, rfl⟩ := Option.map_eq_some_iff.mp hnext
        dsimp only
        omega
      · obtain ⟨-, heq⟩ := Option.ite_none_right_eq_some.mp hnext
        have heq := Option.some.inj heq
        omega
    have hnext : nextBinding o behind = some (some next) := (nextBinding_eq hw).trans (congrArg _ hnext)
    rw [Nat.max_eq_left hlt] at ih ⊢
    have hturn : bindingTurn o edits j = some (.again (edits ++ found, next)) := by
      simp [bindingTurn, bindingHead_eq hw, hhead, hnext]
    refine (loop_again hturn).trans ?_
    rw [ih, List.append_assoc]
  | case3 j hj found behind hhead next? hnext =>
    have hnext : nextBinding o behind = some none := (nextBinding_eq hw).trans (congrArg _ hnext)
    exact loop_done (by simp [bindingTurn, bindingHead_eq hw, hhead, hnext])
  | case4 j hj =>
    have hhead : Typed.bindingHead o j = none :=
      Option.eq_none_iff_forall_ne_some.mpr fun found hfound => hj (lt_bindingHead hfound).1
    exact loop_done (by simp [bindingTurn, bindingHead_eq hw, hhead])

theorem bindingEdits_eq (hw : o.Whole) : bindingEdits o j = some (Typed.bindingEdits o j) :=
  loop_bindingTurn hw []

noncomputable section

/-! ### Classes -/

def continuesMember (o : Outline) (last next : Nat) : Option Bool :=
  reading o [last, next] (Typed.continuesMember o last next)

def memberTurn (o : Outline) (limit j : Nat) : Option (Turn Nat Nat) := do
  if limit ≤ j then return .done j
  if o.is j ";" then return .done (j + 1)
  return if ← continuesMember o (j - 1) j then .again (o.past j).val else .done j

/-- The index behind the member that has come as far as `j`. -/
def pastMember (o : Outline) (limit j : Nat) : Option Nat := loop (memberTurn o limit) j

def decoratorTurn (o : Outline) (j : Nat) : Option (Turn Nat Nat) := do
  if !o.is j "@" then return .done j
  let name ← skip (fun k => o.isIdent k || o.is k ".") (j + 1)
  return .again (if o.is name "(" then (o.past name).val else name)

def pastDecorators (o : Outline) (j : Nat) : Option Nat := loop (decoratorTurn o) j

/-- A mark behind the name of a member goes. -/
def isMark (o : Outline) (i : Nat) : Bool := o.is i "?" || (o.is i "!" && o.is (i + 1) ":")

/-- Takes a member out that is a type only. -/
def dropMember (o : Outline) (first next : Nat) (s : Typed.Pass) : Option (Typed.Pass × Nat) :=
  (removal o first (next - 1)).map fun e => (s.add [e], next)

/-- A member with its name at `name`, of which `behind` is behind what goes at its name. -/
def memberRest (o : Outline) (close first name behind : Nat) (typing : List Edit) (typeOnly : Bool)
    (s : Typed.Pass) : Option (Typed.Pass × Nat) := do
  if o.is behind "(" then
    let body := (Typed.typeAt o (o.past behind).val).2
    if o.is body "\x7b" && !typeOnly then
      return (← parameterList o .method name behind (s.add typing), (o.past body).val)
    else dropMember o first (← pastMember o close body) s
  else if typeOnly then dropMember o first (← pastMember o close behind) s
  else
    let (type, behind) ← typeAt o behind
    return (s.add (typing ++ type), ← pastMember o close behind)

/-- A member behind its decorators and modifiers. -/
def namedMember (o : Outline) (close first start : Nat) (modifiers : List Nat) (s : Typed.Pass) :
    Option (Typed.Pass × Nat) := do
  let name := if o.is start "*" then start + 1 else start
  let behind := if o.is name "[" then (o.past name).val else name + 1
  let mark ← given (isMark o behind) (removal o behind behind)
  let (generics, behind) ← generics o (if isMark o behind then behind + 1 else behind)
  let words ← wordRemovals o modifiers
  memberRest o close first name behind (words ++ mark ++ generics)
    (modifiers.any fun i => o.isAny i ["abstract", "declare"]) s

/-- One class member that starts at `first`; the result also tells where the next one starts. -/
def member (o : Outline) (close first : Nat) (s : Typed.Pass) : Option (Typed.Pass × Nat) := do
  if o.is first ";" then return (s, first + 1)
  let word ← pastDecorators o first
  let start ← skip (Typed.isMemberModifier o close) word
  let modifiers := (Outline.upTo word start).filter fun i => Typed.memberModifiers.contains (o.text i)
  if o.is start "\x7b" then return (s, (o.past start).val)
  else if o.is start "[" && o.isIdent (start + 1) && o.is (start + 2) ":" then
    dropMember o first (← pastMember o close (o.past start).val) s
  else namedMember o close first start modifiers s

def membersTurn (o : Outline) (close : Nat) (s : Typed.Pass) (j : Nat) :
    Option (Turn (Typed.Pass × Nat) Typed.Pass) := do
  if close ≤ j then return .done s
  return .again (← member o close j s)

def members (o : Outline) (close j : Nat) (s : Typed.Pass) : Option Typed.Pass :=
  loop (fun t => membersTurn o close t.1 t.2) (s, j)

def baseTurn (o : Outline) (j : Nat) : Option (Turn Nat (List Edit × Nat)) := do
  if o.size ≤ j || o.isAny j ["\x7b", "implements"] then return .done ([], j)
  match if o.is j "<" then o.pastAngles j else none with
  | none => return .again (o.past j).val
  | some next =>
    if !o.isAny next.val ["\x7b", "implements"] then return .again (j + 1)
    return .done ([← removal o j (next.val - 1)], next.val)

/-- The index of the brace or of `implements` behind the base class, and what goes on the way. -/
def baseClass (o : Outline) (j : Nat) : Option (List Edit × Nat) := loop (baseTurn o) j

/-- The base class, if there is one. -/
def heritage (o : Outline) (j : Nat) : Option (List Edit × Nat) :=
  if o.is j "extends" then baseClass o (j + 1) else some ([], j)

/-- The brace of a class, the interfaces in front of it passed over. -/
def classBrace (o : Outline) (j : Nat) : Option Nat :=
  if o.is j "implements" then skip (fun k => k < o.size && !o.is k "\x7b") j else some j

/-- The class whose keyword is at `i`; the result also tells where reading goes on. -/
def classAt (o : Outline) (i : Nat) (s : Typed.Pass) : Option (Typed.Pass × Nat) := do
  let (generics, j) ←
    generics o (if o.isName (i + 1) && !o.is (i + 1) "implements" then i + 2 else i + 1)
  let (base, j) ← heritage o j
  let brace ← classBrace o j
  let interfaces ← given (j < brace) (removal o j (brace - 1))
  let s := s.add (generics ++ base ++ interfaces)
  match o.closingOf? brace "\x7b" with
  | some close => return (← members o close (brace + 1) s, brace + 1)
  | none => return (s, i + 1)

end

/-! ### What the readings of classes come to -/

variable {limit first : Nat} {s : Typed.Pass}

theorem pastMember_eq (hw : o.Whole) (hl : limit ≤ o.size) :
    pastMember o limit j = some (Typed.pastMember o limit j) := by
  have hcontinues {j : Nat} (hj : j < limit) :
      continuesMember o (j - 1) j = some (Typed.continuesMember o (j - 1) j) :=
    reading_two hw (by omega) (by omega)
  unfold pastMember
  fun_induction Typed.pastMember o limit j with
  | case1 j hj hsemicolon => exact loop_done (by simp [memberTurn, Nat.not_le.mpr hj, hsemicolon])
  | case2 j hj hsemicolon hends =>
    exact loop_done (by simp_all [memberTurn, Nat.not_le.mpr hj])
  | case3 j hj hsemicolon hends next hn hpast ih =>
    rw [← ih]
    exact loop_again (by simp_all [memberTurn, Nat.not_le.mpr hj])
  | case4 j hj => exact loop_done (by simp [memberTurn, Nat.not_lt.mp hj])

theorem le_pastMember : j ≤ Typed.pastMember o limit j := by
  fun_induction Typed.pastMember o limit j with
  | case1 => exact Nat.le_succ _
  | case2 | case4 => exact Nat.le_refl _
  | case3 j hj hsemicolon hends next hn hpast ih => exact Nat.le_trans (Nat.le_of_lt hn) ih

theorem pastMember_le (hw : o.Whole) (hl : limit ≤ o.size) (hj : j ≤ o.size) :
    Typed.pastMember o limit j ≤ o.size := by
  fun_induction Typed.pastMember o limit j with
  | case1 j hlt => exact Nat.lt_of_lt_of_le hlt hl
  | case2 | case4 => exact hj
  | case3 j hlt hsemicolon hends next hn hpast ih =>
    have hle := hw.past_le (Nat.lt_of_lt_of_le hlt hl)
    rw [hpast] at hle
    exact ih hle

theorem skip_decorator : skip (fun k => o.isIdent k || o.is k ".") j
    = some (o.skipWhile j fun k => o.isIdent k || o.is k ".") := by
  refine skip_eq fun k hk => ?_
  rw [Bool.eq_false_iff]
  intro hany
  rcases Bool.or_eq_true_iff.mp hany with h | h
  · exact Nat.not_lt.mpr hk (Outline.lt_size_of_isIdent h)
  · exact Nat.not_lt.mpr hk (Outline.lt_size_of_is h (by decide))

theorem pastDecorators_eq : pastDecorators o j = some (Typed.pastDecorators o j) := by
  unfold pastDecorators
  fun_induction Typed.pastDecorators o j with
  | case1 j hj hat name behind ih =>
    have hname : j + 1 ≤ name := Outline.le_skipWhile
    have hbehind : j + 1 ≤ behind := by
      dsimp only [behind]
      split
      · exact Nat.le_trans hname (Nat.le_of_lt (o.past name).property)
      · exact hname
    rw [Nat.max_eq_left hbehind] at ih ⊢
    rw [← ih]
    exact loop_again (by simp [decoratorTurn, hat, skip_decorator, behind, name])
  | case2 j hj hat => exact loop_done (by simp [decoratorTurn, hat])
  | case3 j hj =>
    have hat : o.is j "@" = false := by
      rw [Outline.is, Outline.text_of_le (Nat.not_lt.mp hj)]
      rfl
    exact loop_done (by simp [decoratorTurn, hat])

theorem le_pastDecorators : j ≤ Typed.pastDecorators o j := by
  fun_induction Typed.pastDecorators o j with
  | case1 j hj hat name behind ih =>
    exact Nat.le_trans (Nat.le_trans (Nat.le_succ j) (Nat.le_max_right _ _)) ih
  | case2 | case3 => exact Nat.le_refl _

theorem skip_isMemberModifier : skip (Typed.isMemberModifier o close) j
    = some (o.skipWhile j (Typed.isMemberModifier o close)) := by
  refine skip_eq fun k hk => ?_
  rw [Typed.isMemberModifier, Outline.text_of_le hk]
  rfl

theorem given_isMark (hw : o.Whole) : given (isMark o i) (removal o i i)
    = some (if isMark o i then [Typed.removal o i i] else []) := by
  refine given_eq fun hi => removal_eq hw (Nat.le_refl i) ?_
  rcases Bool.or_eq_true_iff.mp hi with h | h
  · exact Outline.lt_size_of_is h (by decide)
  · exact Outline.lt_size_of_is (Bool.and_eq_true_iff.mp h).1 (by decide)

theorem dropMember_eq (hw : o.Whole) {next : Nat} (hlt : first < next) (hn : next ≤ o.size) :
    dropMember o first next s = some (s.remove o first (next - 1), next) := by
  rw [dropMember, removal_eq hw (by omega) (by omega)]
  rfl

/-- What becomes of a member with its name at `name`, of which `behind` is behind what goes at its
name. -/
def restOf (o : Outline) (close first name behind : Nat) (typing : List Edit) (typeOnly : Bool)
    (s : Typed.Pass) : Typed.Pass × Nat :=
  if o.is behind "(" then
    let body := (Typed.typeAt o (o.past behind).val).2
    if o.is body "\x7b" && !typeOnly then
      ((s.add typing).parameters o .method name behind, (o.past body).val)
    else (s.remove o first (Typed.pastMember o close body - 1), Typed.pastMember o close body)
  else if typeOnly then
    (s.remove o first (Typed.pastMember o close behind - 1), Typed.pastMember o close behind)
  else
    let (type, behind) := Typed.typeAt o behind
    (s.add (typing ++ type), Typed.pastMember o close behind)

/-- What becomes of a member behind its decorators and modifiers. -/
def namedOf (o : Outline) (close first start : Nat) (modifiers : List Nat) (s : Typed.Pass) :
    Typed.Pass × Nat :=
  let name := if o.is start "*" then start + 1 else start
  let behind := if o.is name "[" then (o.past name).val else name + 1
  let mark := if isMark o behind then [Typed.removal o behind behind] else []
  let behind := if isMark o behind then behind + 1 else behind
  let (generics, behind) := Typed.genericsOf o behind
  restOf o close first name behind (modifiers.map (Typed.wordRemoval o) ++ mark ++ generics)
    (modifiers.any fun i => o.isAny i ["abstract", "declare"]) s

/-- What goes between the name of a class and the interfaces that it implements. -/
def heritageOf (o : Outline) (j : Nat) : List Edit × Nat :=
  if o.is j "extends" then Typed.baseClass o (j + 1) else ([], j)

def classBraceOf (o : Outline) (j : Nat) : Nat :=
  if o.is j "implements" then o.skipWhile j (!o.is · "\x7b") else j

theorem member_eq_named : s.member o close first =
    let word := Typed.pastDecorators o first
    let start := o.skipWhile word (Typed.isMemberModifier o close)
    if o.is first ";" then (s, first + 1)
    else if o.is start "\x7b" then (s, (o.past start).val)
    else if o.is start "[" && o.isIdent (start + 1) && o.is (start + 2) ":" then
      (s.remove o first (Typed.pastMember o close (o.past start).val - 1),
        Typed.pastMember o close (o.past start).val)
    else namedOf o close first start
      ((Outline.upTo word start).filter fun i => Typed.memberModifiers.contains (o.text i)) s := by
  rfl

section

variable {name behind start : Nat} {typing : List Edit} {typeOnly : Bool} {modifiers : List Nat}

theorem memberRest_eq (hw : o.Whole) (hc : close < o.size) (hname : name ≤ behind)
    (hfirst : first < behind) (hbehind : typeOnly → behind ≤ o.size) :
    memberRest o close first name behind typing typeOnly s =
      some (restOf o close first name behind typing typeOnly s) := by
  unfold memberRest restOf
  simp only [pastMember_eq hw (Nat.le_of_lt hc), typeAt_eq hw, parameterList_eq hw hname,
    Option.bind_eq_bind, Option.bind_some]
  split
  · next hopen =>
    have hlt := Outline.lt_size_of_is hopen (by decide)
    have hpast := (o.past behind).property
    have hbody := Typed.le_typeAt (o := o) (i := (o.past behind).val)
    split
    · rfl
    · have hnext : (Typed.typeAt o (o.past behind).val).2
          ≤ Typed.pastMember o close (Typed.typeAt o (o.past behind).val).2 := le_pastMember
      exact dropMember_eq hw (by omega)
        (pastMember_le hw (Nat.le_of_lt hc) (Typed.typeAt_le hw (hw.past_le hlt)))
  · split
    · next htypeOnly =>
      exact dropMember_eq hw (Nat.lt_of_lt_of_le hfirst le_pastMember)
        (pastMember_le hw (Nat.le_of_lt hc) (hbehind htypeOnly))
    · rfl

theorem lt_restOf (hfirst : first < behind) :
    first < (restOf o close first name behind typing typeOnly s).2 := by
  have hpast := (o.past behind).property
  have hbody := Typed.le_typeAt (o := o) (i := (o.past behind).val)
  unfold restOf
  split
  · dsimp only
    split
    · exact Nat.lt_trans (by omega) (o.past _).property
    · exact Nat.lt_of_lt_of_le (by omega) le_pastMember
  · split
    · exact Nat.lt_of_lt_of_le hfirst le_pastMember
    · exact Nat.lt_of_lt_of_le hfirst (Nat.le_trans Typed.le_typeAt le_pastMember)

/-- How far what goes at the name of a member reaches: behind the name, and no further than behind
the last token if the name is there. -/
theorem behind_generics (hw : o.Whole) (hstart : first ≤ start) :
    let name := if o.is start "*" then start + 1 else start
    let behind := if o.is name "[" then (o.past name).val else name + 1
    let behind := if isMark o behind then behind + 1 else behind
    let behind := (Typed.genericsOf o behind).2
    name < behind ∧ first < behind ∧ (start + 1 < o.size → behind ≤ o.size) := by
  extract_lets name nameEnd behind next
  have hname : start ≤ name ∧ name ≤ start + 1 := by
    dsimp only [name]
    split <;> omega
  have hend : name < nameEnd ∧ (name < o.size → nameEnd ≤ o.size) := by
    dsimp only [nameEnd]
    split
    · exact ⟨(o.past name).property, hw.past_le⟩
    · exact ⟨Nat.lt_succ_self name, id⟩
  have hbehind : nameEnd ≤ behind ∧ (nameEnd ≤ o.size → behind ≤ o.size) := by
    dsimp only [behind]
    split
    · next hmark =>
      have hlt : nameEnd < o.size := by
        rcases Bool.or_eq_true_iff.mp hmark with h | h
        · exact Outline.lt_size_of_is h (by decide)
        · exact Outline.lt_size_of_is (Bool.and_eq_true_iff.mp h).1 (by decide)
      omega
    · exact ⟨Nat.le_refl _, id⟩
  have hnext : behind ≤ next ∧ (behind ≤ o.size → next ≤ o.size) :=
    ⟨Typed.le_genericsOf, Typed.genericsOf_le hw⟩
  omega

theorem namedMember_eq (hw : o.Whole) (hc : close < o.size) (hstart : first ≤ start)
    (hmodifiers : ∀ i ∈ modifiers, i < o.size) (hlt : modifiers ≠ [] → start < close) :
    namedMember o close first start modifiers s = some (namedOf o close first start modifiers s) := by
  have hbehind := behind_generics hw hstart
  unfold namedMember namedOf
  simp only [given_isMark hw, generics_eq hw, wordRemovals_eq hw hmodifiers, Option.bind_eq_bind,
    Option.bind_some]
  refine memberRest_eq hw hc (Nat.le_of_lt hbehind.1) hbehind.2.1 fun htypeOnly => hbehind.2.2 ?_
  obtain ⟨i, hi, -⟩ := List.any_eq_true.mp htypeOnly
  have hlt := hlt (List.ne_nil_of_mem hi)
  omega

theorem lt_namedOf (hw : o.Whole) (hstart : first ≤ start) :
    first < (namedOf o close first start modifiers s).2 :=
  lt_restOf (behind_generics hw hstart).2.1

end

theorem lt_member (hw : o.Whole) : first < (s.member o close first).2 := by
  have hstart : first ≤ o.skipWhile (Typed.pastDecorators o first) (Typed.isMemberModifier o close) :=
    Nat.le_trans le_pastDecorators Outline.le_skipWhile
  rw [member_eq_named]
  extract_lets word start
  have hpast : start < (o.past start).val := (o.past start).property
  split
  · exact Nat.lt_succ_self first
  · split
    · exact Nat.lt_of_le_of_lt hstart hpast
    · split
      · exact Nat.lt_of_lt_of_le (Nat.lt_of_le_of_lt hstart hpast) le_pastMember
      · exact lt_namedOf hw hstart

theorem member_eq (hw : o.Whole) (hc : close < o.size) :
    member o close first s = some (s.member o close first) := by
  have hstart : first ≤ o.skipWhile (Typed.pastDecorators o first) (Typed.isMemberModifier o close) :=
    Nat.le_trans le_pastDecorators Outline.le_skipWhile
  rw [member_eq_named]
  unfold member
  simp only [pastDecorators_eq, skip_isMemberModifier, pastMember_eq hw (Nat.le_of_lt hc),
    Option.bind_eq_bind, Option.bind_some]
  generalize hword : Typed.pastDecorators o first = word at hstart ⊢
  generalize hskip : o.skipWhile word (Typed.isMemberModifier o close) = start at hstart ⊢
  have hpast := (o.past start).property
  split
  · rfl
  · split
    · rfl
    · split
      · next hindex =>
        simp only [Bool.and_eq_true] at hindex
        have hlt := Outline.lt_size_of_is hindex.1.1 (by decide)
        exact dropMember_eq hw
          (Nat.lt_of_lt_of_le (Nat.lt_of_le_of_lt hstart hpast) le_pastMember)
          (pastMember_le hw (Nat.le_of_lt hc) (hw.past_le hlt))
      · refine namedMember_eq hw hc hstart (fun i hi => ?_) fun hne => ?_
        · exact (Outline.of_mem_skipWhile (hskip ▸ List.mem_of_mem_filter hi)).1
        · -- the last modifier stands in front of the name, which is no bracket's end
          obtain ⟨i, hi⟩ := List.exists_mem_of_ne_nil _ hne
          have hmem := Outline.mem_upTo.mp (List.mem_of_mem_filter hi)
          have hlast : start - 1 ∈ Outline.upTo word (o.skipWhile word (Typed.isMemberModifier o close)) :=
            Outline.mem_upTo.mpr (by omega)
          have htest := (Outline.of_mem_skipWhile hlast).2
          simp only [Typed.isMemberModifier, Bool.and_eq_true, decide_eq_true_eq] at htest
          omega

theorem members_eq (hw : o.Whole) (hc : close < o.size) :
    members o close j s = some (s.membersFrom o close j) := by
  unfold members
  fun_induction Typed.Pass.membersFrom o close j s with
  | case1 j s hj s' next hmember ih =>
    have hlt : j < (s.member o close j).2 := lt_member hw
    rw [hmember] at hlt
    dsimp only at hlt ih
    rw [Nat.max_eq_left hlt] at ih ⊢
    rw [← ih]
    exact loop_again (by simp [membersTurn, Nat.not_le.mpr hj, member_eq hw hc, hmember])
  | case2 j s hj => exact loop_done (by simp [membersTurn, Nat.not_lt.mp hj])

theorem baseClass_eq (hw : o.Whole) : baseClass o j = some (Typed.baseClass o j) := by
  unfold baseClass
  fun_induction Typed.baseClass o j with
  | case1 j hj hend => exact loop_done (by simp [baseTurn, hend])
  | case2 j hj hend next hn hangles hnext =>
    rw [dite_eq_ite] at hangles
    have hle := hw.pastAngles_le (Option.ite_none_right_eq_some.mp hangles).2
    have hremoval := removal_eq hw (i := j) (j := next - 1) (by omega) (by dsimp only at hle; omega)
    exact loop_done (by simp [baseTurn, Nat.not_le.mpr hj, hend, hangles, hnext, hremoval, Typed.removal])
  | case3 j hj hend next hn hangles hnext ih =>
    rw [dite_eq_ite] at hangles
    rw [← ih]
    exact loop_again (by simp [baseTurn, Nat.not_le.mpr hj, hend, hangles, hnext])
  | case4 j hj hend hangles next hn hpast ih =>
    rw [dite_eq_ite] at hangles
    rw [← ih]
    exact loop_again (by simp [baseTurn, Nat.not_le.mpr hj, hend, hangles, hpast])
  | case5 j hj => exact loop_done (by simp [baseTurn, Nat.not_lt.mp hj])

theorem heritage_eq (hw : o.Whole) : heritage o j = some (heritageOf o j) := by
  rw [heritage, heritageOf, baseClass_eq hw, ← apply_ite some]

theorem classBrace_eq : classBrace o j = some (classBraceOf o j) := by
  rw [classBrace, classBraceOf, skip_within, ← apply_ite some]

theorem given_interfaces (hw : o.Whole) : given (j < classBraceOf o j) (removal o j (classBraceOf o j - 1))
    = some (Typed.removalUpTo o j (classBraceOf o j)) := by
  have hle : j < classBraceOf o j → classBraceOf o j ≤ o.size := by
    unfold classBraceOf
    split
    · next hword =>
      exact fun _ => Outline.skipWhile_le (Nat.le_of_lt (Outline.lt_size_of_is hword (by decide)))
    · exact fun hlt => absurd hlt (Nat.lt_irrefl j)
  have hremoval : decide (j < classBraceOf o j) →
      removal o j (classBraceOf o j - 1) = some (Typed.removal o j (classBraceOf o j - 1)) :=
    fun hlt => by
      have hlt := of_decide_eq_true hlt
      have hle := hle hlt
      exact removal_eq hw (by omega) (by omega)
  rw [given_eq hremoval]
  simp [Typed.removalUpTo]

theorem classAt_eq (hw : o.Whole) : classAt o i s = some (s.classAt o i) := by
  unfold Typed.Pass.classAt
  extract_lets j
  split
  next generics k hgenerics =>
  have hgenerics : Typed.genericsOf o j = (generics, k) := hgenerics
  split
  next base l hbase =>
  have hbase : heritageOf o k = (base, l) := hbase
  extract_lets brace s'
  have hinterfaces : given (l < brace) (removal o l (brace - 1)) = some (Typed.removalUpTo o l brace) :=
    given_interfaces hw
  have hbrace : classBrace o l = some brace := classBrace_eq
  unfold classAt
  simp only [generics_eq hw, hgenerics, heritage_eq hw, hbase, hbrace, hinterfaces,
    Option.bind_eq_bind, Option.bind_some, j]
  cases hclosing : o.closingOf? brace "\x7b" with
  | none => rfl
  | some close =>
    dsimp only
    rw [members_eq hw (hw.closingOf?_lt hclosing)]
    rfl

end Scratchpad.Checked
