import Scratchpad.Typed.Strip

/-!
What the pass that strips types writes. It takes pieces of the text out, stores parameters that are
properties, puts a function in the place of a namespace and an object in that of an enumeration, and
does nothing else. The names that it writes are words of the text.
-/
namespace Scratchpad

open Text (Diagnostic Edit)

theorem Script.exportEdit_blank {o : Outline} {i : Nat} {e : Edit} (h : exportEdit o i = some e) :
    ∃ start stop, e = .blank o.source start stop := by
  unfold exportEdit at h
  split at h
  · cases h
  · split at h
    · exact ⟨_, _, (Option.some.inj h).symm⟩
    · extract_lets declared at h
      obtain ⟨-, h⟩ := Option.ite_none_right_eq_some.mp h
      exact ⟨_, _, (Option.some.inj h).symm⟩

namespace Typed

theorem bind_eq_ok {ε α β : Type} {x : Except ε α} {f : α → Except ε β} {b : β} :
    (x >>= f) = .ok b ↔ ∃ a, x = .ok a ∧ f a = .ok b := by
  cases x <;> simp [Bind.bind, Except.bind]

variable {o : Outline} {s : Pass} {es fs : List Edit} {i j k c first limit : Nat}
  {name : String} {names : List String}

/-- What becomes of the value of the member whose name is at `j`. -/
def valueOf (o : Outline) (close j : Nat) : Except Diagnostic (MemberValue × Nat) :=
  if o.is (j + 1) "=" then memberValue o close (j + 1) else .ok (.implicit, j + 1)

theorem enumMembers_of_lt {close : Nat} (hj : j < close) : enumMembers o close j = (do
    let key ← memberKey o j
    let (value, behind) ← valueOf o close j
    let next := if o.is behind "," then behind + 1 else behind
    return ⟨key, value⟩ :: (← enumMembers o close (max next (j + 1)))) := by
  rw [enumMembers, if_pos hj, valueOf]
  split <;> rfl

/-! ### Names -/

/-- Names that are words of the text. -/
def AreWords (o : Outline) (names : List String) : Prop :=
  ∀ name ∈ names, ∃ k, o.isIdent k ∧ name = o.text k

theorem isIdent_of_isName (h : o.isName i) : o.isIdent i := (Bool.and_eq_true_iff.mp h).1

theorem areWords_nil : AreWords o [] := nofun

theorem areWords_singleton (h : o.isName i) : AreWords o [o.text i] :=
  List.forall_mem_singleton.mpr ⟨i, isIdent_of_isName h, rfl⟩

/-- The grammar of parameters says that a property is named by a word. -/
theorem isIdent_of_property (h : (parameter o c first).2.2 = some name) :
    ∃ k, o.isIdent k ∧ name = o.text k := by
  unfold parameter at h
  dsimp only at h
  split at h
  · cases h
  · obtain ⟨hproperty, hname⟩ := Option.ite_none_right_eq_some.mp h
    exact ⟨_, (Bool.and_eq_true_iff.mp hproperty).2, (Option.some.inj hname).symm⟩

theorem areWords_properties : AreWords o (parametersFrom o c j).2 := by
  intro name h
  fun_induction parametersFrom o c j with
  | case1 j hj edits next property hparameter edits' properties hrest ih =>
    rw [hrest] at ih
    rcases List.mem_append.mp h with h | h
    · exact isIdent_of_property (by rw [hparameter]; exact Option.mem_toList.mp h)
    · exact ih h
  | case2 j hj => cases h

theorem areWords_nameAt : AreWords o (nameAt o i) := by
  unfold nameAt
  split
  · next hname => exact areWords_singleton hname
  · exact areWords_nil

theorem areWords_declaratorNames (h : declaratorNames o limit j = .ok names) : AreWords o names := by
  have hword {j : Nat} (hname : ¬(!o.isName j) = true) : o.isName j := by simpa using hname
  fun_induction declaratorNames o limit j generalizing names with
  | case1 j hname => cases h
  | case2 j hname behind next hnext hdeclarator hlt =>
    rename_i ih
    obtain ⟨rest, hrest, heq⟩ := bind_eq_ok.mp h
    obtain rfl := Except.ok.inj heq
    exact List.forall_mem_cons.mpr ⟨⟨j, isIdent_of_isName (hword hname), rfl⟩, ih hrest⟩
  | case3 j hname | case4 j hname =>
    obtain rfl := Except.ok.inj h
    exact areWords_singleton (hword hname)

theorem areWords_exportedNames (h : exportedNames o limit i = .ok names) : AreWords o names := by
  unfold exportedNames at h
  extract_lets k at h
  split at h
  · split at h
    · exact Except.ok.inj h ▸ areWords_nameAt
    · exact areWords_declaratorNames h
  · exact areWords_declaratorNames h
  · exact areWords_declaratorNames h
  · exact Except.ok.inj h ▸ areWords_nameAt
  · exact Except.ok.inj h ▸ areWords_nameAt
  · exact Except.ok.inj h ▸ areWords_nameAt
  · exact Except.ok.inj h ▸ areWords_nameAt
  · exact Except.ok.inj h ▸ areWords_nameAt
  · exact Except.ok.inj h ▸ areWords_nil

theorem areWords_allExportedNames (h : allExportedNames o limit j = .ok names) :
    AreWords o names := by
  fun_induction allExportedNames o limit j generalizing names with
  | case1 j hj next hnext hpast join hexport =>
    rename_i ih
    obtain ⟨own, hown, hjoin⟩ := bind_eq_ok.mp h
    obtain ⟨rest, hrest, heq⟩ := bind_eq_ok.mp (show _ >>= _ = _ from hjoin)
    obtain rfl := Except.ok.inj heq
    exact List.forall_mem_append.mpr ⟨areWords_exportedNames hown, ih hrest⟩
  | case2 j hj next hnext hpast join hexport =>
    rename_i ih
    have hjoin : join [] = .ok names := h
    obtain ⟨rest, hrest, heq⟩ := bind_eq_ok.mp (show _ >>= _ = _ from hjoin)
    obtain rfl := Except.ok.inj heq
    exact ih hrest
  | case3 j hj => exact Except.ok.inj h ▸ areWords_nil

/-! ### Edits -/

/-- An edit that the pass makes. -/
inductive Made (o : Outline) : Edit → Prop where
  | blank (start stop : Nat) : Made o (.blank o.source start stop)
  | stores {body : Nat} {names : List String} {e : Edit} (hnames : AreWords o names)
      (he : e ∈ propertyEdits o body names) : Made o e
  | namespaceAt {keyword next : Nat} {es : List Edit} {e : Edit} (hname : o.isName (keyword + 1))
      (hbrace : o.isAny (keyword + 2) ["\x7b", "."])
      (h : Typed.namespaceAt o keyword = .ok (es, next)) (he : e ∈ es) : Made o e
  | enumeration {start keyword next : Nat} {es : List Edit} {e : Edit} (hword : o.is keyword "enum")
      (hname : o.isName (keyword + 1)) (h : Typed.enumeration o start keyword = .ok (es, next))
      (he : e ∈ es) : Made o e

/-- Edits that the pass makes. -/
def AllMade (o : Outline) (es : List Edit) : Prop := ∀ e ∈ es, Made o e

/-- A pass that has made no other edits than these. -/
def Pass.Made (o : Outline) (s : Pass) : Prop := AllMade o s.edits

theorem AllMade.nil : AllMade o [] := nofun

theorem AllMade.append (h : AllMade o es) (h' : AllMade o fs) : AllMade o (es ++ fs) :=
  List.forall_mem_append.mpr ⟨h, h'⟩

theorem made_exportEdits (o : Outline) : AllMade o (Script.exportEdits o) := by
  intro e he
  obtain ⟨i, -, hi⟩ := List.mem_filterMap.mp he
  obtain ⟨start, stop, rfl⟩ := Script.exportEdit_blank hi
  exact .blank start stop

theorem made_removal : AllMade o [removal o i j] := List.forall_mem_singleton.mpr (.blank _ _)

theorem made_wordRemovals (is : List Nat) : AllMade o (is.map (wordRemoval o)) := by
  intro e he
  obtain ⟨i, -, rfl⟩ := List.mem_map.mp he
  unfold wordRemoval
  split <;> exact .blank _ _

theorem made_removalUpTo : AllMade o (removalUpTo o i j) := by
  unfold removalUpTo
  split
  · exact made_removal
  · exact .nil

theorem made_typeAt : AllMade o (typeAt o i).1 := by
  unfold typeAt
  split
  · dsimp only
    split
    · exact made_removal
    · exact .nil
  · exact .nil

theorem made_type (h : typeAt o i = (es, k)) : AllMade o es := by
  have hmade : AllMade o (typeAt o i).1 := made_typeAt
  rwa [h] at hmade

theorem made_mark {b : Bool} : AllMade o (if b then [removal o i j] else []) := by
  split
  · exact made_removal
  · exact .nil

theorem made_generics {next? : Option { k : Nat // j < k }} (h : (match next? with
    | some ⟨next, _⟩ => ([removal o j (next - 1)], next)
    | none => ([], j)) = (es, k)) : AllMade o es := by
  cases next? with
  | none =>
    obtain ⟨rfl, -⟩ := Prod.mk.inj h
    exact .nil
  | some next =>
    obtain ⟨rfl, -⟩ := Prod.mk.inj h
    exact made_removal

theorem made_bindingHead (h : bindingHead o j = some (es, k)) : AllMade o es := by
  have hbehind {behind? : Option Nat} (h : (behind?.bind fun behind =>
      let definite := o.is behind "!" && o.is (behind + 1) ":"
      let mark := if definite then [removal o behind behind] else []
      let type := typeAt o (if definite then behind + 1 else behind)
      some (mark ++ type.1, type.2)) = some (es, k)) : AllMade o es := by
    obtain ⟨behind, -, heq⟩ := Option.bind_eq_some_iff.mp h
    obtain ⟨rfl, -⟩ := Prod.mk.inj (Option.some.inj heq)
    exact made_mark.append made_typeAt
  unfold bindingHead at h
  split at h
  · exact hbehind h
  · split at h <;> exact hbehind h

theorem made_bindingEdits : AllMade o (bindingEdits o j) := by
  fun_induction bindingEdits o j with
  | case1 j hj hhead => exact .nil
  | case2 j hj edits behind hhead next? next hnext ih => exact (made_bindingHead hhead).append ih
  | case3 j hj edits behind hhead next? hnext => exact made_bindingHead hhead
  | case4 j hj => exact .nil

theorem made_parameter : AllMade o (parameter o c first).1 := by
  unfold parameter
  dsimp only
  split
  · exact (made_wordRemovals _).append made_removal
  · exact ((made_wordRemovals _).append made_mark).append made_typeAt

theorem made_parametersFrom : AllMade o (parametersFrom o c j).1 := by
  fun_induction parametersFrom o c j with
  | case1 j hj edits next property hparameter edits' properties hrest ih =>
    have hedits : AllMade o (parameter o c j).1 := made_parameter
    rw [hparameter] at hedits
    rw [hrest] at ih
    exact hedits.append ih
  | case2 j hj => exact .nil

theorem made_parameterEdits {kind : ParameterKind} {declaration : Nat} :
    AllMade o (parameterEdits o kind declaration i) := by
  unfold parameterEdits
  split
  · exact .nil
  · next close hclose heq =>
    dsimp only
    have hresult : AllMade o (if kind = .catch then ([], close + 1) else typeAt o (close + 1)).1 := by
      split
      · exact .nil
      · exact made_typeAt
    generalize (if kind = .catch then ([], close + 1) else typeAt o (close + 1)) = result at hresult ⊢
    refine (made_parametersFrom.append hresult).append ?_
    split
    · exact made_removal
    · split
      · exact fun e he => .stores areWords_properties he
      · exact .nil

theorem made_baseClass : AllMade o (baseClass o j).1 := by
  fun_induction baseClass o j with
  | case1 | case5 => exact .nil
  | case2 => exact made_removal
  | case3 | case4 => assumption

/-! ### The pass -/

namespace Pass.Made

theorem add (h : s.Made o) (hes : AllMade o es) : (s.add es).Made o := AllMade.append h hes

theorem remove (h : s.Made o) (i j : Nat) : (s.remove o i j).Made o := h.add made_removal

theorem parameters (h : s.Made o) (kind : ParameterKind) (declaration i : Nat) :
    (s.parameters o kind declaration i).Made o := by
  unfold Pass.parameters
  split
  · exact h
  · exact Made.add (s := { s with stripped := i :: s.stripped }) h made_parameterEdits

theorem member (h : s.Made o) (close first : Nat) : (s.member o close first).1.Made o := by
  unfold Pass.member
  split
  · exact h
  · extract_lets word start modifiers typeOnly dropThrough name nameEnd marked mark behind
    split
    · exact h
    · split
      · exact h.remove _ _
      · split
        next generics behind hmatch =>
        have hgenerics := made_generics hmatch
        extract_lets typing body
        have htyping : AllMade o typing := ((made_wordRemovals _).append made_mark).append hgenerics
        split
        · split
          · exact (h.add htyping).parameters _ _ _
          · exact h.remove _ _
        · split
          · exact h.remove _ _
          · split
            next type behind htype => exact h.add (htyping.append (made_type htype))

theorem membersFrom (h : s.Made o) (close j : Nat) : (s.membersFrom o close j).Made o := by
  fun_induction Pass.membersFrom o close j s with
  | case1 j s hj s' next hmember ih =>
    have hs : (s.member o close j).1.Made o := h.member close j
    rw [hmember] at hs
    exact ih hs
  | case2 j s hj => exact h

theorem classAt (h : s.Made o) (i : Nat) : (s.classAt o i).1.Made o := by
  unfold Pass.classAt
  extract_lets j
  split
  next generics behind hgenerics =>
  split
  next base j hbase =>
  extract_lets brace s'
  have hs : s'.Made o := by
    refine h.add (((made_generics hgenerics).append ?_).append made_removalUpTo)
    split at hbase
    · have hmade : AllMade o (baseClass o (behind + 1)).1 := made_baseClass
      rwa [hbase] at hmade
    · obtain ⟨rfl, -⟩ := Prod.mk.inj hbase
      exact .nil
  split
  · exact hs.membersFrom _ _
  · exact hs

end Pass.Made

/-- What a statement needs is made this way, if it can be read at all. -/
def Sound (o : Outline) (r : Reading) : Prop := ∀ s next, r = .ok (s, next) → s.Made o

theorem sound_addAll {r : Except Diagnostic (List Edit × Nat)} (h : s.Made o)
    (hr : ∀ es next, r = .ok (es, next) → AllMade o es) : Sound o (s.addAll r) := by
  intro s' next heq
  obtain ⟨⟨es, k⟩, hes, hrest⟩ := bind_eq_ok.mp heq
  exact (Prod.mk.inj (Except.ok.inj hrest)).1 ▸ h.add (hr es k hes)

namespace Pass.Made

theorem sound (h : s.Made o) : Sound o (.ok (s, j)) := by
  intro s' next heq
  exact (Prod.mk.inj (Except.ok.inj heq)).1 ▸ h

theorem interfaceAt (h : s.Made o) (i : Nat) : Sound o (s.interfaceAt o i) := by
  unfold Pass.interfaceAt
  split
  · exact (h.remove i _).sound
  · exact nofun

theorem aliasAt (h : s.Made o) (i : Nat) : Sound o (s.aliasAt o i) := by
  intro s' next heq
  unfold Pass.aliasAt at heq
  have hfinish {equals : Nat} (heq : (if !o.is equals "=" then
        throw (faultAt o equals .aliasWithoutType)
      else pure (s.drop o i (if o.is (o.pastType (equals + 1)).val ";" then
        (o.pastType (equals + 1)).val else (o.pastType (equals + 1)).val - 1)) :
        Except Diagnostic (Pass × Nat)) = .ok (s', next)) : s'.Made o := by
    split at heq
    · cases heq
    · exact (Prod.mk.inj (Except.ok.inj heq)).1 ▸ h.remove i _
  extract_lets finish at heq
  split at heq
  · split at heq
    · exact hfinish heq
    · cases heq
  · exact hfinish heq

theorem statementForm (h : s.Made o) (i : Nat) :
    (s.statementForm o i).1.Made o ∧ ∀ r ∈ (s.statementForm o i).2, Sound o r := by
  have hwhen {b : Bool} {r' : Reading} (hr' : b → Sound o r') :
      ∀ r ∈ (if b then some r' else none), Sound o r := by
    intro r hr
    obtain ⟨hb, hr⟩ := Option.ite_none_right_eq_some.mp hr
    exact Option.some.inj hr ▸ hr' hb
  have hdropped : Sound o (.ok (s.drop o i (o.statementEnd i))) := (h.remove i _).sound
  have hnamespace (hboth : o.isName (i + 1) && o.isAny (i + 2) ["\x7b", "."]) :
      Sound o (s.addAll (Typed.namespaceAt o i)) := by
    obtain ⟨hname, hbrace⟩ := Bool.and_eq_true_iff.mp hboth
    exact sound_addAll h fun es next heq e he => .namespaceAt hname hbrace heq he
  have henumeration {keyword : Nat} (hword : o.is keyword "enum") (hname : o.isName (keyword + 1)) :
      Sound o (s.addAll (Typed.enumeration o i keyword)) :=
    sound_addAll h fun es next heq e he => .enumeration hword hname heq he
  unfold Pass.statementForm
  extract_lets dropped clause
  have hclause : clause.Made o := h
  split
  · exact ⟨h, hwhen fun _ => h.interfaceAt i⟩
  · split
    · exact ⟨h, fun r hr => Option.some.inj hr ▸ h.aliasAt i⟩
    · split
      · exact ⟨h, fun r hr => Option.some.inj hr ▸ hdropped⟩
      · exact ⟨h, nofun⟩
  · exact ⟨h, hwhen fun _ => hdropped⟩
  · split
    · exact ⟨h, fun r hr => Option.some.inj hr ▸ hdropped⟩
    · exact ⟨hclause, nofun⟩
  · split
    · exact ⟨hclause, nofun⟩
    · exact ⟨h, nofun⟩
  · exact ⟨h, hwhen hnamespace⟩
  · exact ⟨h, hwhen hnamespace⟩
  · exact ⟨h, hwhen fun _ => (h.add (made_wordRemovals [i])).sound⟩
  · next hword => exact ⟨h, hwhen fun hname => henumeration (beq_iff_eq.mpr hword) hname⟩
  · refine ⟨h, hwhen fun hboth => ?_⟩
    obtain ⟨hword, hname⟩ := Bool.and_eq_true_iff.mp hboth
    exact henumeration hword hname
  · exact ⟨h, nofun⟩

theorem castAt (h : s.Made o) (i : Nat) : (s.castAt o i).1.Made o := by
  unfold Pass.castAt
  extract_lets stop
  split
  · exact h.add (List.forall_mem_singleton.mpr (.blank _ _))
  · exact h

theorem methodAt (h : s.Made o) (i j : Nat) : (s.methodAt o i j).Made o := by
  unfold Pass.methodAt
  split
  · split
    · exact h.parameters _ _ _
    · exact h
  · exact h

theorem functionAt (h : s.Made o) (i : Nat) : (s.functionAt o i).Made o := by
  unfold Pass.functionAt
  extract_lets star behind
  split
  next generics j hgenerics =>
  have hs := h.add (made_generics hgenerics)
  dsimp only
  split
  · exact hs.parameters _ _ _
  · exact hs

theorem nameAt (h : s.Made o) (i : Nat) : (s.nameAt o i).1.Made o := by
  unfold Pass.nameAt
  split
  · dsimp only
    split
    · exact (h.remove _ _).methodAt _ _
    · exact h.remove _ _
  · dsimp only
    split
    · exact h.methodAt _ _
    · exact h

theorem wordAt (h : s.Made o) (i : Nat) : (s.wordAt o i).1.Made o := by
  unfold Pass.wordAt
  extract_lets word
  split
  · exact h.classAt i
  · split
    · exact h.functionAt i
    · split
      · exact h.add made_bindingEdits
      · split
        · exact h.parameters _ _ _
        · split
          · exact h.castAt i
          · split
            · exact h
            · exact h.nameAt i

theorem punctAt (h : s.Made o) (i : Nat) : (s.punctAt o i).1.Made o := by
  unfold Pass.punctAt
  split
  · dsimp only
    split
    · exact h.parameters _ _ _
    · exact h
  · dsimp only
    split
    · exact h.remove _ _
    · exact h
  · split
    · exact h.remove _ _
    · exact h
  · exact h

theorem step (h : s.Made o) (i : Nat) : Sound o (s.step o i) := by
  unfold Pass.step
  split
  · split
    · obtain ⟨hpass, hform⟩ := h.statementForm i
      split
      · next reading hreading => exact hform reading (by rw [hreading]; rfl)
      · next s' hnone =>
        rw [hnone] at hpass
        exact (hpass.wordAt i).sound
    · exact (h.wordAt i).sound
  · exact (h.punctAt i).sound
  · exact h.sound

/-- The pass makes no other edits than these if it starts with none. -/
theorem run {s' : Pass} (h : s.Made o) (hrun : s.run o i = .ok s') : s'.Made o := by
  fun_induction Pass.run o s i with
  | case1 s i hi s'' next hstep ih => exact ih (h.step i _ _ hstep) hrun
  | case2 s i hi fault hstep => cases hrun
  | case3 s i hi => exact Except.ok.inj hrun ▸ h

end Pass.Made

end Typed

end Scratchpad
