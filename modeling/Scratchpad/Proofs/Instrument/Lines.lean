import Scratchpad.Instrument.Pipeline
import Scratchpad.Proofs.Python.Heads
import Scratchpad.Proofs.Script.Heads
import Scratchpad.Proofs.Typed.Level

/-!
Which lines a stage keeps. Instrumentation keeps all of them, if the tokens of every rewritten head
stand on one line, and those in front of the first head that does not. Transpiling keeps all of them,
unless an enumeration has a key or an initial value that reaches over a line end. Then the lines
behind it move down.
-/
namespace Scratchpad.Instrument

open Text (Diagnostic Edit)
open Typed (Lowers Member)

section Postprocess

variable (code : String) (language : Language) (options : Options)

/-- The tokens of a snippet. -/
def outline : Language → Outline
  | .javascript | .typescript => (tokenize .script code.toList).outline
  | .python => (tokenize .python code.toList).outline

/-- What `postprocess` does to the text. -/
def edits : List Edit :=
  match language with
  | .javascript | .typescript => Script.instrumentEdits (outline code language) options
  | .python => Python.instrumentEdits (outline code language) options

/-- The heads that `postprocess` rewrites, as first and last token: of console and print calls, and
the `while` of a loop with the first token of its condition. -/
def heads : List (Nat × Nat) :=
  match language with
  | .javascript | .typescript => Script.consoleHeads (outline code language)
  | .python => Python.heads (outline code language) options

/-- For each character of the instrumented text the place of the character of the source that it
is, and none for what `postprocess` wrote. -/
def origins : List (Option Nat) := Edit.origins (edits code language options) code.toList

variable {code language options}

theorem toList_postprocess :
    (postprocess code language options).toList = Edit.apply (edits code language options) code.toList := by
  cases language <;> exact String.toList_ofList

theorem source_outline : (outline code language).source = code.toList := by
  cases language <;> rfl

theorem rewrites_edits (h : Unbroken options.debugFunction) :
    (outline code language).Rewrites (edits code language options) (heads code language options) := by
  cases language with
  | javascript => exact Script.rewrites_instrumentEdits (placed_tokenize _ _) h
  | typescript => exact Script.rewrites_instrumentEdits (placed_tokenize _ _) h
  | python => exact Python.rewrites_instrumentEdits (placed_tokenize _ _) h

/-- The number of lines stays if and only if every rewritten head stands on one line, and a
character that is kept stays on its line if and only if the heads that start in front of it do. -/
theorem lines_postprocess (code : String) (language : Language) (options : Options)
    (h : Unbroken options.debugFunction) :
    ((postprocess code language options).toList.count '\n' = code.toList.count '\n' ↔
      ∀ head ∈ heads code language options,
        (outline code language).line head.1 = (outline code language).line head.2) ∧
    ∀ i j, (origins code language options)[j]? = some (some i) →
      (postprocess code language options).toList[j]? = code.toList[i]? ∧
      (((postprocess code language options).toList.take j).count '\n'
          = (code.toList.take i).count '\n' ↔
        ∀ head ∈ heads code language options, (outline code language).start head.1 ≤ i →
          (outline code language).line head.1 = (outline code language).line head.2) := by
  have hr := @rewrites_edits code language options h
  have hcount := hr.count_iff
  rw [source_outline] at hcount
  rw [toList_postprocess]
  refine ⟨hcount, fun i j hj => ⟨Edit.getElem?_apply hj, ?_⟩⟩
  have htake := hr.count_take_iff (i := i) (j := j)
  rw [source_outline] at htake
  exact htake hj

/-- A console call whose head stands on two lines takes a line break out, and its argument moves. -/
theorem lines_postprocess_of_split_head :
    let code := "console\n.log(1)\n"
    Unbroken ({} : Options).debugFunction ∧
    (origins code .javascript {})[19]? = some (some 13) ∧
    (postprocess code .javascript {}).toList.count '\n' ≠ code.toList.count '\n' ∧
    ((postprocess code .javascript {}).toList.take 19).count '\n' ≠ (code.toList.take 13).count '\n' := by
  intro code
  have hlines := lines_postprocess code .javascript {} (by decide)
  have hhead : (0, 3) ∈ heads code .javascript {} := by decide +kernel
  have hsplit : (outline code .javascript).line 0 ≠ (outline code .javascript).line 3 := by
    decide +kernel
  have horigin : (origins code .javascript {})[19]? = some (some 13) := by decide +kernel
  have hstart : (outline code .javascript).start 0 ≤ 13 := by decide +kernel
  refine ⟨by decide, horigin, fun hc => hsplit (hlines.1.mp hc (0, 3) hhead), fun hc => ?_⟩
  exact hsplit (((hlines.2 13 19 horigin).2.mp hc) (0, 3) hhead hstart)

end Postprocess

section Transpile

/-- What `transpile` does to the text of a snippet without faults. -/
def strippings (code : String) (language : Language) : Except Diagnostic (List Edit) :=
  match language with
  | .javascript => .ok (Script.exportEdits (outline code language))
  | .typescript =>
    (Typed.Pass.run (outline code language)
      { edits := Script.exportEdits (outline code language) } 0).map Typed.Pass.edits
  | .python => .ok []

/-- The edit writes line breaks that the enumeration in its place has in its members. -/
def Repeats (code : String) (language : Language) (e : Edit) : Prop :=
  language = .typescript ∧ ∃ members, Lowers (outline code language) e members ∧
    ∃ m ∈ members, ¬m.Unbroken

variable {code out : String} {language : Language} {edits : List Edit} {e : Edit}

theorem level_iff_of_accounted (hw : (outline code .typescript).Worded)
    (h : Typed.Accounted (outline code .typescript) e) :
    (Text.slice code.toList e.start e.stop).count '\n' ≤ e.text.toList.count '\n' ∧
      (Level code.toList e ↔ ¬Repeats code .typescript e) := by
  have hnone (hlevel : Level code.toList e) : ¬Repeats code .typescript e := by
    rintro ⟨-, members, hlowers, m, hm, hbroken⟩
    exact hbroken ((Typed.levels_lowered hw hlowers).2.mp hlevel m hm)
  rcases h with hlevel | ⟨members, hlowers⟩
  · exact ⟨Nat.le_of_eq hlevel.symm, fun _ => hnone hlevel, fun _ => hlevel⟩
  · obtain ⟨hle, hiff⟩ := Typed.levels_lowered hw hlowers
    refine ⟨hle, hnone, fun hrepeats => hiff.mpr fun m hm => ?_⟩
    exact Decidable.byContradiction fun hbroken => hrepeats ⟨rfl, members, hlowers, m, hm, hbroken⟩

theorem map_eq_ok {α β : Type} {x : Except Diagnostic α} {f : α → β} {b : β} :
    x.map f = .ok b ↔ ∃ a, x = .ok a ∧ f a = b := by
  cases x <;> simp [Except.map]

/-- Transpiling carries out edits that take no line break out, and write more of them than they take
out just if they repeat those of an enumeration. -/
theorem transpile_eq_ok (h : transpile code language = .ok out) : ∃ edits,
    strippings code language = .ok edits ∧ out.toList = Edit.apply edits code.toList ∧
    ∀ e ∈ edits, (Text.slice code.toList e.start e.stop).count '\n' ≤ e.text.toList.count '\n' ∧
      (Level code.toList e ↔ ¬Repeats code language e) := by
  cases language with
  | python =>
    obtain ⟨-, -, rfl⟩ := map_eq_ok.mp h
    exact ⟨[], rfl, by simp [Edit.apply, Edit.keep, Edit.splice],
      fun _ he => by cases he⟩
  | javascript =>
    obtain ⟨plain, hplain, rfl⟩ := map_eq_ok.mp h
    unfold Script.transpile at hplain
    extract_lets x at hplain
    split at hplain
    · cases hplain
    · obtain rfl := Except.ok.inj hplain
      refine ⟨_, rfl, String.toList_ofList, fun e he => ?_⟩
      obtain ⟨i, -, hi⟩ := List.mem_filterMap.mp he
      obtain ⟨start, stop, rfl⟩ := Script.exportEdit_blank hi
      have hlevel : Level code.toList (.blank code.toList start stop) := level_blank
      have hnone : ¬Repeats code .javascript (.blank code.toList start stop) := fun hr => by cases hr.1
      exact ⟨Nat.le_of_eq hlevel.symm, iff_of_true hlevel hnone⟩
  | typescript =>
    obtain ⟨plain, hplain, rfl⟩ := map_eq_ok.mp h
    unfold Typed.transpile at hplain
    extract_lets x at hplain
    split at hplain
    · cases hplain
    · next hfault =>
      obtain ⟨s, hrun, heq⟩ := Typed.bind_eq_ok.mp hplain
      obtain rfl := Except.ok.inj heq
      have hw : (outline code .typescript).Worded :=
        worded_tokenize (Option.or_eq_none_iff.mp hfault).2
      have hexports : Typed.Pass.Made (outline code .typescript)
          { edits := Script.exportEdits (outline code .typescript) } := Typed.made_exportEdits _
      have hs := hexports.run hrun
      refine ⟨s.edits, ?_, String.toList_ofList, fun e he =>
        level_iff_of_accounted hw ((hs e he).accounted hw)⟩
      exact congrArg (Except.map Typed.Pass.edits) hrun

/-- Transpiling never takes a line out. The number of lines stays if and only if no enumeration that
is put in another form has a line break in a key or an initial value. The characters that are kept
are those beside the edits, and one of them stays on its line if and only if no such enumeration
ends in front of it. -/
theorem lines_transpile (h : transpile code language = .ok out) : ∃ edits,
    strippings code language = .ok edits ∧ code.toList.count '\n' ≤ out.toList.count '\n' ∧
    (out.toList.count '\n' = code.toList.count '\n' ↔
      ∀ e ∈ Edit.kept edits code.toList, ¬Repeats code language e) ∧
    (∀ i < code.toList.length, some i ∈ Edit.origins edits code.toList ↔
      ∀ e ∈ Edit.kept edits code.toList, i < e.start ∨ e.stop ≤ i) ∧
    ∀ i j, (Edit.origins edits code.toList)[j]? = some (some i) → out.toList[j]? = code.toList[i]? ∧
      ((out.toList.take j).count '\n' = (code.toList.take i).count '\n' ↔
        ∀ e ∈ Edit.kept edits code.toList, e.stop ≤ i → ¬Repeats code language e) := by
  obtain ⟨edits, hedits, hout, hall⟩ := transpile_eq_ok h
  have hle : ∀ e ∈ edits, (Text.slice code.toList e.start e.stop).count '\n' ≤ e.text.toList.count '\n' :=
    fun e he => (hall e he).1
  have hiff : ∀ e ∈ Edit.kept edits code.toList,
      (Level code.toList e ↔ ¬Repeats code language e) :=
    fun e he => (hall e (Edit.mem_of_mem_kept he)).2
  obtain ⟨hcount, hequal⟩ := Edit.count_apply_of_le hle
  rw [hout]
  refine ⟨edits, hedits, hcount, hequal.trans (forall₂_congr hiff), fun i => Edit.mem_origins,
    fun i j hj => ⟨Edit.getElem?_apply hj, (Edit.count_take_apply_of_le hle hj).trans ?_⟩⟩
  exact forall₂_congr fun e he => forall_congr' fun _ => hiff e he

/-- The initial value of `A` has a line break, which the object in the place of the enumeration has
twice: once in the value, once at its end. -/
theorem lines_transpile_of_enumeration :
    let code := "enum E \x7b A = (1 +\n 2) \x7d\nx\n"
    let out := "const E = Object.freeze((function (E) \x7b E[E[\"A\"] = (1 +\n 2)] = \"A\"; return E; \x7d)(\x7b\x7d));\n\nx\n"
    transpile code .typescript = .ok out ∧ out.toList.count '\n' ≠ code.toList.count '\n' ∧
      ∃ edits, strippings code .typescript = .ok edits ∧
        ∃ e ∈ Edit.kept edits code.toList, Repeats code .typescript e := by
  intro code out
  have hout : transpile code .typescript = .ok out := by
    have hsome : (transpile code .typescript).toOption = some out := by decide +kernel
    cases hresult : transpile code .typescript with
    | error fault => rw [hresult] at hsome; cases hsome
    | ok text => rw [hresult] at hsome; exact congrArg Except.ok (Option.some.inj hsome)
  have hcount : out.toList.count '\n' ≠ code.toList.count '\n' := by decide
  obtain ⟨edits, hedits, -, hiff, -⟩ := lines_transpile hout
  refine ⟨hout, hcount, edits, hedits, ?_⟩
  exact Classical.byContradiction fun hnone =>
    hcount (hiff.mpr fun e he hrepeats => hnone ⟨e, he, hrepeats⟩)

end Transpile

end Scratchpad.Instrument
