import Scratchpad.Proofs.Token.Fault
import Scratchpad.Proofs.Typed.Stripping

/-! Typed scripts that are refused: what is wrong with one is shown at a character of it. -/
namespace Scratchpad.Typed

open Text (Diagnostic Edit Fault)

variable {α β : Type} {o : Outline} {s : Pass} {i j close limit keyword : Nat}

/-- A reading that fails shows one of the tokens. -/
def AtToken (o : Outline) (r : Except Diagnostic α) : Prop :=
  ∀ d, r = .error d → ∃ i fault, d = faultAt o i fault

theorem atToken_ok {a : α} : AtToken o (.ok a) := nofun

theorem atToken_fault {fault : Fault} : AtToken o (.error (faultAt o i fault) : Except Diagnostic α) := by
  rintro d heq
  exact ⟨i, fault, (Except.error.inj heq).symm⟩

theorem AtToken.bind {x : Except Diagnostic α} {f : α → Except Diagnostic β} (hx : AtToken o x)
    (hf : ∀ a, AtToken o (f a)) : AtToken o (x >>= f) := by
  intro d heq
  cases x with
  | error d' => exact hx d' rfl |>.imp fun i ⟨fault, h⟩ => ⟨fault, Except.error.inj heq ▸ h⟩
  | ok a => exact hf a d heq

theorem atToken_memberKey : AtToken o (memberKey o i) := by
  unfold memberKey
  split
  · exact atToken_ok
  · exact atToken_ok
  · exact atToken_fault

theorem atToken_valueOf : AtToken o (valueOf o close j) := by
  unfold valueOf
  split
  · unfold memberValue
    extract_lets first stop source lone literal
    split
    · exact atToken_fault
    · exact atToken_ok
  · exact atToken_ok

theorem atToken_enumMembers : AtToken o (enumMembers o close j) := by
  induction hn : close - j using Nat.strongRecOn generalizing j with
  | ind n ih =>
    by_cases hj : j < close
    · rw [enumMembers_of_lt hj]
      exact atToken_memberKey.bind fun key => atToken_valueOf.bind fun value =>
        (ih _ (by omega) rfl).bind fun rest => atToken_ok
    · rw [enumMembers, if_neg hj]
      exact atToken_ok

theorem atToken_enumeration : AtToken o (enumeration o i keyword) := by
  unfold enumeration
  extract_lets name brace first finish
  split
  · exact atToken_fault
  · dsimp only [finish]
    split
    · exact atToken_fault
    · exact atToken_enumMembers.bind fun members => atToken_ok

theorem atToken_declaratorNames : AtToken o (declaratorNames o limit j) := by
  fun_induction declaratorNames o limit j with
  | case1 => exact atToken_fault
  | case2 =>
    rename_i ih
    exact ih.bind fun rest => atToken_ok
  | case3 | case4 => exact atToken_ok

theorem atToken_exportedNames : AtToken o (exportedNames o limit i) := by
  unfold exportedNames
  extract_lets k
  split
  · split
    · exact atToken_ok
    · exact atToken_declaratorNames
  · exact atToken_declaratorNames
  · exact atToken_declaratorNames
  all_goals exact atToken_ok

theorem atToken_allExportedNames : AtToken o (allExportedNames o limit j) := by
  fun_induction allExportedNames o limit j with
  | case1 =>
    rename_i ih
    exact atToken_exportedNames.bind fun own => ih.bind fun rest => atToken_ok
  | case2 =>
    rename_i ih
    exact ih.bind fun rest => atToken_ok
  | case3 => exact atToken_ok

theorem atToken_namespaceAt : AtToken o (namespaceAt o keyword) := by
  unfold namespaceAt
  extract_lets name brace first last head finish
  split
  · exact atToken_fault
  · dsimp only [finish]
    split
    · exact atToken_fault
    · exact atToken_allExportedNames.bind fun names => atToken_ok

theorem atToken_interfaceAt : AtToken o (s.interfaceAt o i) := by
  unfold Pass.interfaceAt
  split
  · exact atToken_ok
  · exact atToken_fault

theorem atToken_aliasAt : AtToken o (s.aliasAt o i) := by
  have hfinish {equals : Nat} : AtToken o (if !o.is equals "=" then
        throw (faultAt o equals .aliasWithoutType)
      else pure (s.drop o i (if o.is (o.pastType (equals + 1)).val ";" then
        (o.pastType (equals + 1)).val else (o.pastType (equals + 1)).val - 1)) :
        Except Diagnostic (Pass × Nat)) := by
    split
    · exact atToken_fault
    · exact atToken_ok
  unfold Pass.aliasAt
  extract_lets finish
  split
  · split
    · exact hfinish
    · exact atToken_fault
  · exact hfinish

theorem atToken_addAll {r : Except Diagnostic (List Edit × Nat)} (h : AtToken o r) :
    AtToken o (s.addAll r) := h.bind fun _ => atToken_ok

theorem atToken_statementForm : ∀ r ∈ (s.statementForm o i).2, AtToken o r := by
  have hwhen {b : Bool} {r' : Reading} (hr' : AtToken o r') :
      ∀ r ∈ (if b then some r' else none), AtToken o r := by
    intro r hr
    exact Option.some.inj (Option.ite_none_right_eq_some.mp hr).2 ▸ hr'
  have hsome {r' : Reading} (hr' : AtToken o r') : ∀ r ∈ some r', AtToken o r :=
    fun r hr => Option.some.inj hr ▸ hr'
  have hnone : ∀ r ∈ (none : Option Reading), AtToken o r := nofun
  unfold Pass.statementForm
  extract_lets dropped clause
  split
  · exact hwhen atToken_interfaceAt
  · split
    · exact hsome atToken_aliasAt
    · split
      · exact hsome atToken_ok
      · exact hnone
  · exact hwhen atToken_ok
  · split
    · exact hsome atToken_ok
    · exact hnone
  · exact hnone
  · exact hwhen (atToken_addAll atToken_namespaceAt)
  · exact hwhen (atToken_addAll atToken_namespaceAt)
  · exact hwhen atToken_ok
  · exact hwhen (atToken_addAll atToken_enumeration)
  · exact hwhen (atToken_addAll atToken_enumeration)
  · exact hnone

theorem atToken_step : AtToken o (s.step o i) := by
  unfold Pass.step
  split
  · split
    · split
      · next reading hreading => exact atToken_statementForm reading (by rw [hreading]; rfl)
      · exact atToken_ok
    · exact atToken_ok
  · exact atToken_ok
  · exact atToken_ok

/-- A pass that fails shows one of the tokens, and there are some. -/
theorem atToken_run {d : Diagnostic} (h : s.run o i = .error d) :
    0 < o.size ∧ ∃ k fault, d = faultAt o k fault := by
  fun_induction Pass.run o s i with
  | case1 s i hi s' next hstep ih => exact ih h
  | case2 s i hi d' hstep =>
    obtain rfl := Except.error.inj h
    exact ⟨Nat.zero_lt_of_lt hi, atToken_step _ hstep⟩
  | case3 s i hi => cases h

/-- The place of a token, or that of the last one instead, is at a character of the text. -/
theorem position_in (hp : o.Placed) (hsize : 0 < o.size) : (o.position i).In o.source := by
  have hin {t : Token} (ht : t ∈ o.tokens) : (⟨t.line, t.column⟩ : Text.Position).In o.source :=
    (hp.token t (Array.mem_toList_iff.mpr ht)).inText
  unfold Outline.position
  split
  · next t ht =>
    rcases Option.or_eq_some_iff.mp ht with ht | ⟨-, ht⟩
    · exact hin (Array.mem_of_getElem? ht)
    · exact hin (Array.mem_of_back? ht)
  · next hnone =>
    have hempty := Array.back?_eq_none_iff.mp (Option.or_eq_none_iff.mp hnone).2
    exact absurd hsize (by simp [Outline.size, hempty])

/-- What is wrong with a typed script is at a character of it. -/
theorem in_of_transpile {source : List Char} {d : Diagnostic} (h : transpile source = .error d) :
    d.toPosition.In source := by
  unfold transpile at h
  extract_lets x at h
  split at h
  · next fault hfault => exact Except.error.inj h ▸ in_of_firstFault hfault
  · cases hrun : Pass.run x.outline { edits := Script.exportEdits x.outline } 0 with
    | ok s =>
      rw [hrun] at h
      cases h
    | error d' =>
      rw [hrun] at h
      obtain rfl := Except.error.inj h
      obtain ⟨hsize, k, fault, rfl⟩ := atToken_run hrun
      exact position_in (placed_tokenize .script source) hsize

end Scratchpad.Typed
