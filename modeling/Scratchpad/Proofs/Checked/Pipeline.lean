import Scratchpad.Instrument.Pipeline
import Scratchpad.Proofs.Checked.Python
import Scratchpad.Proofs.Checked.Strip
import Scratchpad.Proofs.Typed.Level
import Scratchpad.Proofs.Typed.Refusal

/-!
The way of a snippet to instrumented code, read with care. It comes to an end with what the pipeline
comes to, for every text, since no pass writes a hash into a text that has none.
-/
namespace Scratchpad

open Instrument (Options debugClose)
open Text (Diagnostic Edit)

/-! ### Hashes -/

theorem hashesEnclosed_of_not_mem {source : List Char} (h : '#' ∉ source) : HashesEnclosed source :=
  fun _ _ hat => absurd (List.mem_of_getElem? hat) h

namespace Script

variable {o : Outline} {options : Options} {source out : List Char}

theorem lacks_markerEdits (hd : Lacks '#' options.debugFunction) (ht : ∀ i, Lacks '#' (o.text i))
    {c : Comment} : ∀ e ∈ markerEdits o options c, Lacks '#' e.text := by
  have hline (line : Nat) : Lacks '#' (toString line) := lacks_nat (by decide) line
  have hcall {line : Nat} {name : String} (hname : Lacks '#' name) :
      Lacks '#' (options.debugCall line name) := by
    simp +decide only [Options.debugCall, lacks_append, lacks_toString, hd, hline, hname, and_self]
  have hopen {line : Nat} : Lacks '#' (options.debugOpen line) := by
    simp +decide only [Options.debugOpen, lacks_append, lacks_toString, hd, hline, and_self]
  have hdeclared {first : Nat} {name : String} (h : declaredName o first = some name) :
      Lacks '#' name := by
    unfold declaredName at h
    split at h
    · exact Option.some.inj h ▸ ht _
    · split at h
      · exact Option.some.inj h ▸ ht _
      · cases h
  unfold markerEdits
  split
  · exact nofun
  · extract_lets ended
    split
    · exact nofun
    · split
      · next name hname =>
        have hname : Lacks '#' (options.debugCall c.line name) := hcall (hdeclared hname)
        refine List.forall_mem_singleton.mpr ?_
        dsimp only [Edit.closeAt]
        split <;> simp +decide only [lacks_append, lacks_toString, hname, and_self]
      · split
        · exact nofun
        · have hclose : Lacks '#' debugClose := by decide
          exact List.forall_mem_cons.mpr ⟨hopen, List.forall_mem_singleton.mpr hclose⟩

theorem hash_not_mem_markMagicComments (hs : '#' ∉ source) (hd : Lacks '#' options.debugFunction) :
    '#' ∉ markMagicComments options source := by
  refine Edit.not_mem_apply hs fun e he => ?_
  obtain ⟨c, -, he⟩ := List.mem_flatMap.mp he
  exact lacks_markerEdits hd ((placed_tokenize .script source).lacks_text hs) e he

theorem hash_not_mem_transpile (hs : '#' ∉ source) (h : transpile source = .ok out) : '#' ∉ out := by
  unfold transpile at h
  extract_lets x at h
  split at h
  · cases h
  · obtain rfl := Except.ok.inj h
    refine Edit.not_mem_apply hs fun e he => ?_
    obtain ⟨i, -, hi⟩ := List.mem_filterMap.mp he
    obtain ⟨start, stop, rfl⟩ := exportEdit_blank hi
    exact lacks_blank hs start stop

end Script

/-! ### The pipeline -/

namespace Checked

noncomputable section

def preprocess (code : String) (language : Language) (options : Options) : Option String :=
  if !options.magicComments then some code
  else Option.map .ofList <|
    match language with
    | .javascript | .typescript => markMagicComments options code.toList
    | .python => Python.markMagicComments options code.toList

/-- What a text becomes, or what is wrong with it. -/
def textOf (r : Except Diagnostic (List Char)) : Except Diagnostic String := r.map .ofList

def transpileIn (code : String) (language : Language) : Option (Except Diagnostic String) :=
  match language with
  | .javascript => (transpile code.toList).map textOf
  | .typescript => (strip code.toList).map textOf
  | .python => (Python.check code.toList).map fun r => r.map fun _ => code

def postprocess (code : String) (language : Language) (options : Options) : Option String :=
  Option.map .ofList <|
    match language with
    | .javascript | .typescript => instrument options code.toList
    | .python => Python.instrument options code.toList

def recover (source : String) (language : Language) (options : Options) (fault : Diagnostic) :
    Option (Except Diagnostic String) :=
  if language.isStrict then some (.error fault)
  else (postprocess source language { options with wrapExpressions := false }).map .ok

def transform (code : String) (language : Language) (options : Options) :
    Option (Except Diagnostic String) := do
  let source ← preprocess code language options
  match ← transpileIn source language with
  | .ok transpiled => (postprocess transpiled language options).map .ok
  | .error fault => recover source language options fault

end

variable {code : String} {language : Language} {options : Options}

/-- Text in which a reader of the language never stops at a hash. -/
def Readable (language : Language) (code : String) : Prop := language ≠ .python → Lacks '#' code

theorem preprocess_eq (h : Readable language code) :
    preprocess code language options = some (Instrument.preprocess code language options) := by
  unfold preprocess Instrument.preprocess
  split
  · rfl
  · cases language with
    | javascript | typescript =>
      simp only [markMagicComments_eq (hashesEnclosed_of_not_mem (h (by decide)))]
      rfl
    | python =>
      simp only [Python.markMagicComments_eq]
      rfl

theorem readable_preprocess (h : Readable language code) (hd : Readable language options.debugFunction) :
    Readable language (Instrument.preprocess code language options) := by
  intro hne
  unfold Instrument.preprocess
  split
  · exact h hne
  · rw [Lacks, String.toList_ofList]
    cases language with
    | javascript | typescript => exact Script.hash_not_mem_markMagicComments (h hne) (hd hne)
    | python => exact absurd rfl hne

theorem transpileIn_eq (h : Readable language code) :
    transpileIn code language = some (Instrument.transpile code language) := by
  cases language with
  | javascript =>
    rw [transpileIn, transpile_eq (hashesEnclosed_of_not_mem (h (by decide)))]
    rfl
  | typescript =>
    rw [transpileIn, strip_eq (hashesEnclosed_of_not_mem (h (by decide)))]
    rfl
  | python =>
    rw [transpileIn, Python.check_eq]
    rfl

theorem readable_transpile {out : String} (h : Readable language code)
    (hout : Instrument.transpile code language = .ok out) : Readable language out := by
  intro hne
  cases language with
  | javascript =>
    cases hplain : Script.transpile code.toList with
    | error fault => simp [Instrument.transpile, hplain, Except.map] at hout
    | ok plain =>
      simp only [Instrument.transpile, hplain, Except.map, Except.ok.injEq] at hout
      rw [Lacks, ← hout, String.toList_ofList]
      exact Script.hash_not_mem_transpile (h hne) hplain
  | typescript =>
    cases hplain : Typed.transpile code.toList with
    | error fault => simp [Instrument.transpile, hplain, Except.map] at hout
    | ok plain =>
      simp only [Instrument.transpile, hplain, Except.map, Except.ok.injEq] at hout
      rw [Lacks, ← hout, String.toList_ofList]
      exact Typed.hash_not_mem_transpile (h hne) hplain
  | python => exact absurd rfl hne

theorem postprocess_eq (h : Readable language code) :
    postprocess code language options = some (Instrument.postprocess code language options) := by
  unfold postprocess Instrument.postprocess
  cases language with
  | javascript | typescript =>
    simp only [instrument_eq (hashesEnclosed_of_not_mem (h (by decide)))]
    rfl
  | python =>
    simp only [Python.instrument_eq]
    rfl

theorem recover_eq (h : Readable language code) {fault : Diagnostic} :
    recover code language options fault = some (Instrument.recover code language options fault) := by
  unfold recover Instrument.recover
  split
  · rfl
  · rw [postprocess_eq h]
    rfl

theorem transform_eq (h : Readable language code) (hd : Readable language options.debugFunction) :
    transform code language options = some (Instrument.transform code language options) := by
  have hsource := readable_preprocess h hd
  unfold transform Instrument.transform
  simp only [preprocess_eq h, transpileIn_eq hsource, Option.bind_eq_bind, Option.bind_some]
  cases hout : Instrument.transpile (Instrument.preprocess code language options) language with
  | error fault => exact recover_eq hsource
  | ok out =>
    dsimp only
    rw [postprocess_eq (readable_transpile hsource hout)]
    rfl

/-- Of the languages, a strict one alone refuses a text, and it does if it cannot transpile it. -/
theorem transform_eq_error {fault : Diagnostic} :
    Instrument.transform code language options = .error fault ↔ language.isStrict ∧
      Instrument.transpile (Instrument.preprocess code language options) language = .error fault := by
  cases hout : Instrument.transpile (Instrument.preprocess code language options) language with
  | ok out => simp [Instrument.transform, hout]
  | error fault' =>
    cases hstrict : language.isStrict <;>
      simp [Instrument.transform, hout, Instrument.recover, hstrict]

/-- For every text in every language, the pipeline ends without reading a token that is not there or
a piece of a text that is none, a script or a typed script being one without hashes, and the
function's name too. It refuses typed scripts only: those that cannot be transpiled once their
markers have become reports, and what is wrong is then shown at a character of that text. Numbers
have no bound here. -/
theorem transform_total (code : String) (language : Language) (options : Options)
    (h : language ≠ .python → '#' ∉ code.toList ∧ '#' ∉ options.debugFunction.toList) :
    transform code language options = some (Instrument.transform code language options) ∧
    (language ≠ .typescript → ∃ out, Instrument.transform code language options = .ok out) ∧
    ∀ fault, (Instrument.transform code .typescript options = .error fault ↔
        Instrument.transpile (Instrument.preprocess code .typescript options) .typescript
          = .error fault) ∧
      (Instrument.transform code .typescript options = .error fault →
        fault.toPosition.In (Instrument.preprocess code .typescript options).toList) := by
  refine ⟨transform_eq (fun hne => (h hne).1) fun hne => (h hne).2, fun hne => ?_, fun fault => ?_⟩
  · cases hresult : Instrument.transform code language options with
    | ok out => exact ⟨out, rfl⟩
    | error fault =>
      have hstrict := (transform_eq_error.mp hresult).1
      cases language with
      | typescript => exact absurd rfl hne
      | javascript | python => cases hstrict
  · have hiff : Instrument.transform code .typescript options = .error fault ↔ _ :=
      transform_eq_error
    refine ⟨hiff.trans (and_iff_right rfl), fun hresult => ?_⟩
    have hfault := (hiff.mp hresult).2
    cases hplain : Typed.transpile (Instrument.preprocess code .typescript options).toList with
    | ok plain => simp [Instrument.transpile, hplain, Except.map] at hfault
    | error fault' =>
      simp only [Instrument.transpile, hplain, Except.map, Except.error.injEq] at hfault
      exact hfault ▸ Typed.in_of_transpile hplain

/-- A member without a name is refused; nothing is read where the enumeration breaks off. -/
theorem transform_total_of_unnamed_member :
    let code := "let n: number = 1\nenum E \x7b 2 \x7d"
    ∃ fault, Instrument.transform code .typescript {} = .error fault ∧
      transform code .typescript {} = some (.error fault) ∧
      fault.toPosition.In (Instrument.preprocess code .typescript {}).toList := by
  intro code
  obtain ⟨hread, -, hrefused⟩ := transform_total code .typescript {} fun _ => by decide +kernel
  have hnone : (Instrument.transform code .typescript {}).toOption = none := by decide +kernel
  cases hresult : Instrument.transform code .typescript {} with
  | ok out =>
    rw [hresult] at hnone
    cases hnone
  | error fault => exact ⟨fault, rfl, hresult ▸ hread, (hrefused fault).2 hresult⟩

end Checked

end Scratchpad
