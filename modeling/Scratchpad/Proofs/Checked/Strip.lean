import Scratchpad.Proofs.Checked.Declaration
import Scratchpad.Proofs.Checked.Lowering
import Scratchpad.Proofs.Checked.Script

/-!
The pass that takes types out, read with care. On a script without faults it comes to the same result
as the pass itself, whatever declarations the script has and wherever they break off.
-/
namespace Scratchpad.Checked

open Text (Diagnostic Edit)
open Typed (faultAt Pass Reading)

noncomputable section

/-! ### Declarations -/

def isExported (o : Outline) (i : Nat) : Option Bool :=
  if 0 < i && o.is (i - 1) "export" then startsStatement o (i - 1) else some false

/-- Takes the tokens from `i` through `last` out and goes on behind them. -/
def drop (o : Outline) (s : Pass) (i last : Nat) : Option Reading :=
  (removal o i last).map fun e => .ok (s.add [e], last + 1)

def interfaceAt (o : Outline) (s : Pass) (i : Nat) : Option Reading :=
  match o.closing? (Typed.interfaceBrace o (i + 2)) with
  | some close => drop o s i close
  | none => some (.error (faultAt o i .interfaceWithoutBody))

/-- The index of the equals sign of the alias at `i`, behind its type parameters. -/
def aliasEquals (o : Outline) (i : Nat) : Except Diagnostic Nat :=
  if o.is (i + 2) "<" then
    match o.pastAngles (i + 2) with
    | some next => .ok next.val
    | none => .error (faultAt o (i + 2) .unterminatedTypeParameters)
  else .ok (i + 2)

def aliasAt (o : Outline) (s : Pass) (i : Nat) : Option Reading :=
  match aliasEquals o i with
  | .error fault => some (.error fault)
  | .ok equals =>
    if !o.is equals "=" then some (.error (faultAt o equals .aliasWithoutType))
    else
      let stop := (o.pastType (equals + 1)).val
      drop o s i (if o.is stop ";" then stop else stop - 1)

/-- A statement that goes as a whole. -/
def dropStatement (o : Outline) (s : Pass) (i : Nat) : Option Reading := do
  drop o s i (← statementEnd o i)

/-- A statement whose words `as` rename what it imports or exports. -/
def clause (o : Outline) (s : Pass) (i : Nat) : Option Pass :=
  (statementEnd o i).map fun last => { s with clauseEnd := some last }

/-- The reading of a statement that is read this way if it is asked for. -/
def form (s : Pass) (asked : Bool) (reading : Option Reading) : Option (Pass × Option Reading) :=
  if asked then reading.map fun r => (s, some r) else some (s, none)

def typeForm (o : Outline) (s : Pass) (i : Nat) : Option (Pass × Option Reading) := do
  let exported ← isExported o i
  if o.isName (i + 1) && o.isAny (i + 2) ["=", "<"] then form s true (aliasAt o s i)
  else form s (o.is (i + 1) "\x7b" && exported) (dropStatement o s i)

/-- What a statement that starts with the word at `i` needs; none if nothing but what its words
need. The pass of the second component holds in any case. -/
def statementForm (o : Outline) (s : Pass) (i : Nat) : Option (Pass × Option Reading) :=
  match o.text i with
  | "interface" => form s (o.isName (i + 1)) (interfaceAt o s i)
  | "type" => typeForm o s i
  | "declare" => form s (o.isIdent (i + 1) && !o.newlineBefore (i + 1)) (dropStatement o s i)
  | "import" =>
    if o.is (i + 1) "type" && !o.is (i + 2) "(" then form s true (dropStatement o s i)
    else (clause o s i).map fun s => (s, none)
  | "export" =>
    if o.isAny (i + 1) ["\x7b", "*"] then (clause o s i).map fun s => (s, none) else some (s, none)
  | "namespace" | "module" =>
    form s (o.isName (i + 1) && o.isAny (i + 2) ["\x7b", "."])
      ((namespaceAt o i).map s.addAll)
  | "abstract" =>
    form s (o.is (i + 1) "class") ((wordRemoval o i).map fun e => .ok (s.add [e], i + 1))
  | "enum" => form s (o.isName (i + 1)) ((enumeration o i i).map s.addAll)
  | "const" =>
    form s (o.is (i + 1) "enum" && o.isName (i + 2)) ((enumeration o i (i + 1)).map s.addAll)
  | _ => some (s, none)

/-! ### Words and marks -/

/-- A parameter list followed by a block makes a method. -/
def methodAt (o : Outline) (name open_ : Nat) (s : Pass) : Option Pass :=
  match o.closing? open_ with
  | some close =>
    if o.is (Typed.typeAt o (close + 1)).2 "\x7b" then parameterList o .method name open_ s else some s
  | none => some s

def functionAt (o : Outline) (i : Nat) (s : Pass) : Option Pass := do
  let j := if o.is (i + 1) "*" then i + 2 else i + 1
  let (generics, j) ← generics o (if o.isIdent j then j + 1 else j)
  if o.is j "(" then parameterList o .function i j (s.add generics) else return s.add generics

/-- The type of a cast goes with the blanks in front of it. -/
def castAt (o : Outline) (i : Nat) (s : Pass) : Option (Pass × Nat) := do
  let stop := if o.is (i + 1) "const" then i + 2 else (o.pastType (i + 1)).val
  if stop ≤ i + 1 then return (s, i + 1)
  let (before, behind) ← reading o [i - 1, stop - 1] (o.stop (i - 1), o.stop (stop - 1))
  return (s.add [← blank o.source before behind], stop)

/-- The index behind type arguments of a call or of `new` that start right behind the name `i`. -/
def callArguments (o : Outline) (i : Nat) : Option (Option Nat) :=
  if !(o.is (i + 1) "<" && o.touchesNext i) then some none
  else match o.pastAngles (i + 1) with
    | none => some none
    | some stop => do
      let among := Outline.upTo (i + 2) (stop.val - 1)
      let typeLike ← reading o among (among.all fun k => Typed.fitsTypeArgument (o.kind? k) (o.text k))
      let created := 0 < i && o.is (i - 1) "new"
      return if typeLike && (o.is stop.val "(" || created) then some stop.val else none

/-- The method that a name may be, with its parameters at `i`. -/
def methodIf (o : Outline) (name i : Nat) (s : Pass) : Option Pass :=
  if o.is i "(" then methodAt o name i s else some s

def nameAt (o : Outline) (i : Nat) (s : Pass) : Option (Pass × Nat) := do
  match ← callArguments o i with
  | some stop => return (← methodIf o i stop (s.add [← removal o (i + 1) (stop - 1)]), stop)
  | none => return (← methodIf o i (i + 1) s, i + 1)

def wordAt (o : Outline) (i : Nat) (s : Pass) : Option (Pass × Nat) :=
  let word := o.text i
  let next (s? : Option Pass) : Option (Pass × Nat) := s?.map fun s => (s, i + 1)
  if word == "class" then classAt o i s
  else if word == "function" then next (functionAt o i s)
  else if ["let", "const", "var"].contains word then next ((bindingEdits o (i + 1)).map s.add)
  else if word == "catch" && o.is (i + 1) "(" then next (parameterList o .catch i (i + 1) s)
  else if ["as", "satisfies"].contains word && s.isCast o i then castAt o i s
  else if Script.isKeyword word then some (s, i + 1)
  else nameAt o i s

/-- A mark right behind a value that asserts the value to be there. -/
def isAssertion (o : Outline) (i : Nat) : Option Bool := reading o [i - 1, i] (Typed.isAssertion o i)

def punctAt (o : Outline) (i : Nat) (s : Pass) : Option (Pass × Nat) :=
  let next (s? : Option Pass) : Option (Pass × Nat) := s?.map fun s => (s, i + 1)
  match o.text i with
  | "(" => next (if Typed.isArrow o i then parameterList o .arrow i i s else some s)
  | "!" => do
    let asserted ← isAssertion o i
    next ((given asserted (removal o i i)).map s.add)
  | "<" =>
    match Typed.arrowGenerics o i with
    | some stop => (removal o i (stop - 1)).map fun e => (s.add [e], stop)
    | none => some (s, i + 1)
  | _ => some (s, i + 1)

/-! ### The pass -/

/-- The word at `i`, which may start a statement. -/
def identAt (o : Outline) (s : Pass) (i : Nat) : Option Reading := do
  let starts ← startsStatement o i
  let exported ← isExported o i
  if starts || exported then
    match ← statementForm o s i with
    | (_, some reading) => return reading
    | (s', none) => return .ok (← wordAt o i s')
  else return .ok (← wordAt o i s)

def step (o : Outline) (s : Pass) (i : Nat) : Option Reading :=
  match o.kind? i with
  | some .ident => identAt o s i
  | some .punct => (punctAt o i s).map .ok
  | _ => some (.ok (s, i + 1))

def passTurn (o : Outline) (s : Pass) (i : Nat) :
    Option (Turn (Pass × Nat) (Except Diagnostic Pass)) := do
  if o.size ≤ i then return .done (.ok s)
  return match ← step o s i with
    | .ok (s', next) => .again (s', max next (i + 1))
    | .error fault => .done (.error fault)

def run (o : Outline) (s : Pass) (i : Nat) : Option (Except Diagnostic Pass) :=
  loop (fun t => passTurn o t.1 t.2) (s, i)

/-- Plain script code of a typed script. -/
def strip (source : List Char) : Option (Except Diagnostic (List Char)) := do
  let (x, o) ← read .script source
  match x.firstFault with
  | some fault => return .error fault
  | none =>
    match ← run o { edits := ← exportEdits o } 0 with
    | .error fault => return .error fault
    | .ok s => return .ok (← carryOut s.edits source)

end

/-! ### What the readings come to -/

variable {o : Outline} {i j : Nat} {s : Pass}

theorem isExported_eq (hw : o.Whole) (hi : i < o.size) : isExported o i = some (Typed.isExported o i) := by
  unfold isExported Typed.isExported
  rw [startsStatement_eq hw (by omega)]
  split
  · next h => rw [h, Bool.true_and]
  · next h => rw [Bool.eq_false_iff.mpr h, Bool.false_and]

theorem drop_eq (hw : o.Whole) (hij : i ≤ j) (hj : j < o.size) :
    drop o s i j = some (.ok (s.drop o i j)) := by
  rw [drop, removal_eq hw hij hj]
  rfl

theorem le_interfaceBrace : j ≤ Typed.interfaceBrace o j := by
  fun_induction Typed.interfaceBrace o j with
  | case1 | case4 => exact Nat.le_refl _
  | case2 j hj hbrace next hn hangles ih => exact Nat.le_trans (Nat.le_of_lt hn) ih
  | case3 j hj hbrace hangles ih => exact Nat.le_of_succ_le ih

theorem interfaceAt_eq (hw : o.Whole) : interfaceAt o s i = some (s.interfaceAt o i) := by
  unfold interfaceAt Typed.Pass.interfaceAt
  cases hclosing : o.closing? (Typed.interfaceBrace o (i + 2)) with
  | none => rfl
  | some c =>
    obtain ⟨close, hclose⟩ := c
    have hle : i + 2 ≤ Typed.interfaceBrace o (i + 2) := le_interfaceBrace
    have hbefore : i ≤ close := by omega
    exact drop_eq hw hbefore (hw.closing hclosing)

theorem aliasEquals_bound (h : aliasEquals o i = .ok j) : i + 2 ≤ j := by
  unfold aliasEquals at h
  split at h
  · split at h
    · next next hnext =>
      cases h
      exact Nat.le_of_lt next.property
    · cases h
  · cases h
    exact Nat.le_refl _

/-- What is taken out with the alias at `i` whose equals sign is asked for at `equals`. -/
def aliasBehind (o : Outline) (s : Pass) (i equals : Nat) : Reading :=
  if !o.is equals "=" then .error (faultAt o equals .aliasWithoutType)
  else
    let stop := (o.pastType (equals + 1)).val
    .ok (s.drop o i (if o.is stop ";" then stop else stop - 1))

theorem aliasAt_eq_bind : s.aliasAt o i = (aliasEquals o i).bind (aliasBehind o s i) := by
  have hsign (equals : Nat) : (do
      if !o.is equals "=" then throw (faultAt o equals .aliasWithoutType)
      let stop := (o.pastType (equals + 1)).val
      return s.drop o i (if o.is stop ";" then stop else stop - 1)) = aliasBehind o s i equals := by
    unfold aliasBehind
    split <;> rfl
  unfold Typed.Pass.aliasAt aliasEquals
  split
  · cases o.pastAngles (i + 2) with
    | none => rfl
    | some next => exact hsign next.val
  · exact hsign (i + 2)

theorem aliasAt_eq (hw : o.Whole) : aliasAt o s i = some (s.aliasAt o i) := by
  rw [aliasAt_eq_bind, aliasAt]
  cases hequals : aliasEquals o i with
  | error fault => rfl
  | ok equals =>
    have hbound := aliasEquals_bound hequals
    change _ = some (aliasBehind o s i equals)
    unfold aliasBehind
    dsimp only
    split
    · rfl
    · next hsign =>
      have hlt : equals < o.size := Outline.lt_size_of_is (by simpa using hsign) (by decide)
      have hle : (o.pastType (equals + 1)).val ≤ o.size := hw.pastType_le hlt
      have hstart : equals + 1 ≤ (o.pastType (equals + 1)).val := (o.pastType (equals + 1)).property
      refine drop_eq hw ?_ ?_
      · split <;> omega
      · split
        · next hsemicolon => exact Outline.lt_size_of_is hsemicolon (by decide)
        · omega

theorem dropStatement_eq (hw : o.Whole) (hi : i < o.size) :
    dropStatement o s i = some (.ok (s.drop o i (o.statementEnd i))) := by
  simp only [dropStatement, statementEnd_eq hw hi, Option.bind_eq_bind, Option.bind_some]
  exact drop_eq hw Outline.le_statementEnd (hw.statementEnd_lt hi)

theorem clause_eq (hw : o.Whole) (hi : i < o.size) :
    clause o s i = some { s with clauseEnd := some (o.statementEnd i) } := by
  rw [clause, statementEnd_eq hw hi]
  rfl

theorem form_eq {asked : Bool} {reading : Option Reading} {r : Reading} (h : asked → reading = some r) :
    form s asked reading = some (s, if asked then some r else none) := by
  unfold form
  split
  · next hasked => rw [h hasked]; rfl
  · rfl

theorem typeForm_eq (hw : o.Whole) (hi : i < o.size) : typeForm o s i =
    some (if o.isName (i + 1) && o.isAny (i + 2) ["=", "<"] then (s, some (s.aliasAt o i))
      else if o.is (i + 1) "\x7b" && Typed.isExported o i then
        (s, some (.ok (s.drop o i (o.statementEnd i))))
      else (s, none)) := by
  simp only [typeForm, isExported_eq hw hi, Option.bind_eq_bind, Option.bind_some]
  split
  · exact form_eq fun _ => aliasAt_eq hw
  · rw [form_eq fun _ => dropStatement_eq hw hi]
    split <;> rfl

theorem statementForm_eq (hw : o.Whole) (hq : Quoted o) (hi : i < o.size) :
    statementForm o s i = some (s.statementForm o i) := by
  unfold statementForm Typed.Pass.statementForm
  have hdrop := dropStatement_eq (s := s) hw hi
  have hclause := clause_eq (s := s) hw hi
  generalize o.text i = word
  split
  · exact form_eq fun _ => interfaceAt_eq hw
  · exact typeForm_eq hw hi
  · exact form_eq fun _ => hdrop
  · split
    · exact form_eq fun _ => hdrop
    · rw [hclause]
      rfl
  · split
    · rw [hclause]
      rfl
    · rfl
  · exact form_eq fun _ => by rw [namespaceAt_eq hw]; rfl
  · exact form_eq fun _ => by rw [namespaceAt_eq hw]; rfl
  · exact form_eq fun _ => by rw [wordRemoval_eq hw hi]; rfl
  · exact form_eq fun _ => by rw [enumeration_eq hw hq (Nat.le_refl i)]; rfl
  · exact form_eq fun _ => by rw [enumeration_eq hw hq (Nat.le_succ i)]; rfl
  · simp_all

theorem methodAt_eq (hw : o.Whole) (hij : i ≤ j) : methodAt o i j s = some (s.methodAt o i j) := by
  unfold methodAt Typed.Pass.methodAt
  cases o.closing? j with
  | none => rfl
  | some c =>
    dsimp only
    rw [parameterList_eq hw hij, ← apply_ite some]

theorem functionAt_eq (hw : o.Whole) : functionAt o i s = some (s.functionAt o i) := by
  unfold Typed.Pass.functionAt
  extract_lets j k
  split
  next edits l hgenerics =>
  have hgenerics : Typed.genericsOf o k = (edits, l) := hgenerics
  have hle : k ≤ l := by
    have hle := Typed.le_genericsOf (o := o) (i := k)
    rwa [hgenerics] at hle
  have hbefore : i ≤ l := by
    dsimp only [k, j] at hle
    split at hle <;> split at hle <;> omega
  unfold functionAt
  simp only [generics_eq hw, Option.bind_eq_bind, Option.bind_some]
  change (match Typed.genericsOf o k with
    | (generics, j) => if o.is j "(" then parameterList o .function i j (s.add generics)
      else some (s.add generics)) = _
  rw [hgenerics]
  dsimp only
  rw [parameterList_eq hw hbefore, ← apply_ite some]

theorem castAt_eq (hw : o.Whole) (hi : i < o.size) : castAt o i s = some (s.castAt o i) := by
  unfold castAt Typed.Pass.castAt
  extract_lets stop
  by_cases hstop : i + 1 < stop
  · have hle : stop ≤ o.size := by
      dsimp only [stop]
      split
      · next hconst => exact Outline.lt_size_of_is hconst (by decide)
      · exact hw.pastType_le hi
    have hbefore : i - 1 < o.size := Nat.lt_of_le_of_lt (Nat.sub_le i 1) hi
    have hlast : stop - 1 < o.size := by omega
    have hblank := blank_eq (hw.stop_le_stop (i := i - 1) (j := stop - 1) (by omega) hlast)
      (hw.stop_le (stop - 1))
    simp only [if_neg (Nat.not_le.mpr hstop), if_pos hstop, reading_two hw hbefore hlast,
      Option.bind_eq_bind, Option.bind_some, hblank]
    rfl
  · simp only [if_pos (Nat.not_lt.mp hstop), if_neg hstop]
    rfl

theorem callArguments_eq (hw : o.Whole) : callArguments o i = some (Typed.callArguments o i) := by
  unfold callArguments Typed.callArguments
  cases hopens : o.is (i + 1) "<" && o.touchesNext i with
  | false => rfl
  | true =>
    cases hangles : o.pastAngles (i + 1) with
    | none => rfl
    | some stop =>
      have hle := hw.pastAngles_le hangles
      have hamong : ∀ k ∈ Outline.upTo (i + 2) (stop.val - 1), k < o.size := fun k hk => by
        have hlt := (Outline.mem_upTo.mp hk).2
        omega
      simp only [reading_eq hw hamong, Option.bind_eq_bind, Option.bind_some]
      rfl

theorem methodIf_eq (hw : o.Whole) (hij : i ≤ j) :
    methodIf o i j s = some (if o.is j "(" then s.methodAt o i j else s) := by
  rw [methodIf, methodAt_eq hw hij, ← apply_ite some]

/-- Type arguments that are taken out stand between the name and what is called. -/
theorem of_callArguments (hw : o.Whole) (h : Typed.callArguments o i = some j) :
    i + 1 < j ∧ j ≤ o.size := by
  unfold Typed.callArguments at h
  split at h
  · cases h
  · obtain ⟨stop, hstop, h⟩ := Option.bind_eq_some_iff.mp h
    have hle := hw.pastAngles_le hstop
    have hlt := stop.property
    dsimp only at h
    split at h
    · cases h
      exact ⟨hlt, hle⟩
    · cases h

theorem nameAt_eq (hw : o.Whole) : nameAt o i s = some (s.nameAt o i) := by
  unfold nameAt Typed.Pass.nameAt
  rw [callArguments_eq hw]
  cases hcall : Typed.callArguments o i with
  | none =>
    simp only [Option.bind_eq_bind, Option.bind_some, methodIf_eq hw (Nat.le_succ i)]
    rfl
  | some stop =>
    obtain ⟨hlt, hle⟩ := of_callArguments hw hcall
    simp only [removal_eq hw (i := i + 1) (j := stop - 1) (by omega) (by omega),
      methodIf_eq hw (i := i) (j := stop) (by omega), Option.bind_eq_bind, Option.bind_some]
    rfl

theorem wordAt_eq (hw : o.Whole) (hi : i < o.size) : wordAt o i s = some (s.wordAt o i) := by
  unfold wordAt Typed.Pass.wordAt
  rw [classAt_eq hw, functionAt_eq hw, bindingEdits_eq hw, parameterList_eq hw (Nat.le_succ i),
    castAt_eq hw hi, nameAt_eq hw]
  simp only [Option.map_some, apply_ite some]

theorem isAssertion_eq (hw : o.Whole) (hi : i < o.size) :
    isAssertion o i = some (Typed.isAssertion o i) :=
  reading_two hw (Nat.lt_of_le_of_lt (Nat.sub_le i 1) hi) hi

theorem of_arrowGenerics (hw : o.Whole) (h : Typed.arrowGenerics o i = some j) :
    i < j ∧ j ≤ o.size := by
  unfold Typed.arrowGenerics at h
  split at h
  · cases h
  · obtain ⟨stop, hstop, h⟩ := Option.bind_eq_some_iff.mp h
    obtain ⟨close, -, h⟩ := Option.bind_eq_some_iff.mp h
    have hle := hw.pastAngles_le hstop
    have hlt := stop.property
    split at h
    · cases h
      exact ⟨hlt, hle⟩
    · cases h

theorem punctAt_eq (hw : o.Whole) (hi : i < o.size) : punctAt o i s = some (s.punctAt o i) := by
  unfold punctAt Typed.Pass.punctAt
  generalize o.text i = mark
  dsimp only
  split
  · rw [parameterList_eq hw (Nat.le_refl i), ← apply_ite some]
    rfl
  · rw [isAssertion_eq hw hi]
    simp only [Option.bind_eq_bind, Option.bind_some,
      given_eq fun _ => removal_eq hw (Nat.le_refl i) hi]
    cases Typed.isAssertion o i with
    | true => rfl
    | false => simp [Pass.add]
  · cases hgenerics : Typed.arrowGenerics o i with
    | none => rfl
    | some stop =>
      obtain ⟨hlt, hle⟩ := of_arrowGenerics hw hgenerics
      simp only [removal_eq hw (i := i) (j := stop - 1) (by omega) (by omega)]
      rfl
  · simp_all

theorem identAt_eq (hw : o.Whole) (hq : Quoted o) (hi : i < o.size) : identAt o s i =
    some (if o.startsStatement i || Typed.isExported o i then
        match s.statementForm o i with
        | (_, some reading) => reading
        | (s', none) => .ok (s'.wordAt o i)
      else .ok (s.wordAt o i)) := by
  unfold identAt
  simp only [startsStatement_eq hw hi, isExported_eq hw hi, statementForm_eq hw hq hi,
    wordAt_eq hw hi, Option.bind_eq_bind, Option.bind_some]
  split
  · split <;> rfl
  · rfl

theorem step_eq (hw : o.Whole) (hq : Quoted o) (hi : i < o.size) : step o s i = some (s.step o i) := by
  unfold step Typed.Pass.step
  rw [identAt_eq hw hq hi, punctAt_eq hw hi]
  generalize o.kind? i = kind
  split
  · rfl
  · rfl
  · simp_all

theorem run_eq (hw : o.Whole) (hq : Quoted o) : run o s i = some (s.run o i) := by
  unfold run
  fun_induction Typed.Pass.run o s i with
  | case1 s i hi s' next hstep ih =>
    have hturn : passTurn o s i = some (.again (s', max next (i + 1))) := by
      simp [passTurn, Nat.not_le.mpr hi, step_eq hw hq hi, hstep]
    exact (loop_again hturn).trans ih
  | case2 s i hi fault hstep =>
    exact loop_done (by simp [passTurn, Nat.not_le.mpr hi, step_eq hw hq hi, hstep])
  | case3 s i hi => exact loop_done (by simp [passTurn, Nat.not_lt.mp hi])

theorem strip_eq {source : List Char} (h : HashesEnclosed source) :
    strip source = some (Typed.transpile source) := by
  have hw := whole_tokenize .script source
  unfold strip Typed.transpile
  simp only [read_eq fun _ => h, exportEdits_eq hw, Option.bind_eq_bind, Option.bind_some]
  cases hfault : (tokenize .script source).firstFault with
  | some fault => rfl
  | none =>
    have hq : Quoted (tokenize .script source).outline := fun i =>
      quotes_of_string (List.head?_eq_none_iff.mp (Option.or_eq_none_iff.mp hfault).1)
    dsimp only
    rw [run_eq hw hq]
    cases Typed.Pass.run (tokenize .script source).outline _ 0 with
    | error fault => rfl
    | ok s =>
      simp only [Option.bind_some, carryOut_eq]
      rfl

end Scratchpad.Checked
