import Scratchpad.Proofs.Instrument.Lines
import Scratchpad.Proofs.Python.Statement
import Scratchpad.Proofs.Script.Marker
import Scratchpad.Proofs.Text.Growth
import Scratchpad.Proofs.Typed.Level

/-!
Markers only insert, and only on their own lines: a snippet behind `preprocess` is the snippet with
texts inserted that break no line, and a line on which no marker stands is as it was.
-/
namespace Scratchpad

open Instrument (Options debugClose)
open Text (Edit slice)

namespace Outline

variable {o : Outline} {c : Comment} {first p : Nat}

/-- A token on the line of a comment, and no break between the two. -/
structure Leads (o : Outline) (first : Nat) (c : Comment) : Prop where
  within : first < o.size
  line : o.line first = c.line
  comment_line : c.line = 1 + (o.source.take c.start).count '\n'

theorem Leads.line_of_le (h : o.Leads first c) (hp : o.Placed) (hfirst : o.start first ≤ p)
    (hc : p ≤ c.start) : 1 + (o.source.take p).count '\n' = c.line := by
  have hle : (o.source.take (o.start first)).count '\n' ≤ (o.source.take p).count '\n' :=
    (List.take_sublist_take_left hfirst).count_le '\n'
  have hle' : (o.source.take p).count '\n' ≤ (o.source.take c.start).count '\n' :=
    (List.take_sublist_take_left hc).count_le '\n'
  have hline := hp.line h.within
  rw [h.line] at hline
  have hcomment := h.comment_line
  omega

theorem Leads.unbroken (h : o.Leads first c) (hp : o.Placed) (hc : p ≤ c.start) :
    '\n' ∉ slice o.source (o.start first) p := by
  rcases Nat.le_total p (o.start first) with hle | hle
  · simp [slice, Nat.sub_eq_zero_of_le hle]
  · have hline := h.line_of_le hp hle hc
    rw [← Text.take_append_slice hle, List.count_append] at hline
    have hfirst := h.line_of_le hp (Nat.le_refl _) (Nat.le_trans hle hc)
    exact List.count_eq_zero.mp (by omega)

end Outline

/-- Inserts a text without line breaks on the line of a comment. -/
structure Marks (source : List Char) (c : Comment) (e : Edit) : Prop where
  stop : e.stop = e.start
  unbroken : Unbroken e.text
  line : 1 + (source.take e.start).count '\n' = c.line

theorem Instrument.Options.unbroken_debugCall {options : Options} {args : String}
    (h : Unbroken options.debugFunction) (ha : Unbroken args) (line : Nat) :
    Unbroken (options.debugCall line args) := by
  have hopen : Unbroken (toString options.debugFunction ++ toString "(" ++ toString line) :=
    unbroken_append.mpr ⟨unbroken_append.mpr ⟨h, by decide⟩, unbroken_nat line⟩
  have hcomma := unbroken_append.mpr ⟨hopen, (by decide : Unbroken (toString ", "))⟩
  exact unbroken_append.mpr ⟨unbroken_append.mpr ⟨hcomma, ha⟩, by decide⟩

namespace Script

variable {o : Outline} {options : Options} {c : Comment} {e : Edit} {source : List Char}

theorem isIdent_of_declaredName {first : Nat} {name : String} (h : declaredName o first = some name) :
    ∃ k, o.isIdent k ∧ o.text k = name := by
  unfold declaredName at h
  split at h
  · next hdeclared =>
    simp only [Bool.and_eq_true] at hdeclared
    exact ⟨first + 1, hdeclared.1.2, Option.some.inj h⟩
  · split at h
    · next hassigned =>
      simp only [Bool.and_eq_true] at hassigned
      exact ⟨first, hassigned.1.2, Option.some.inj h⟩
    · cases h

theorem marks_markerEdits (hu : Unbroken options.debugFunction)
    (hc : c ∈ (tokenize .script source).comments)
    (he : e ∈ markerEdits (tokenize .script source).outline options c) : Marks source c e := by
  obtain ⟨first, last, hline, -, -, hreport⟩ := mem_markerEdits he
  have hrow := Row.of_lineBefore hline
  have hp := placed_tokenize .script source
  have hleads : (tokenize .script source).outline.Leads first c :=
    ⟨Nat.lt_of_le_of_lt hrow.le hrow.within, hrow.line_first,
      (Lexed.comment_placed hc).line⟩
  have hstop {k : Nat} (hfirst : first ≤ k) (hlast : k ≤ last) :
      1 + (source.take ((tokenize .script source).outline.stop k)).count '\n' = c.line := by
    have hk := Nat.lt_of_le_of_lt hlast hrow.within
    have hle := hp.stop_le_stop hlast hrow.within
    have hstart := hp.start_le_start hfirst hk
    exact hleads.line_of_le hp (Nat.le_trans hstart (Nat.le_of_lt (hp.start_lt_stop hk)))
      (Nat.le_trans hle hrow.stop_last)
  cases hreport with
  | name hname =>
    obtain ⟨k, hident, rfl⟩ := isIdent_of_declaredName hname
    have hcall := options.unbroken_debugCall hu (unbroken_of_isIdent hident) c.line
    refine ⟨rfl, ?_, hstop hrow.le (Nat.le_refl last)⟩
    dsimp only [Edit.closeAt]
    split
    · exact unbroken_append.mpr ⟨unbroken_append.mpr ⟨by decide, hcall⟩, by decide⟩
    · exact unbroken_append.mpr ⟨unbroken_append.mpr ⟨by decide, hcall⟩, by decide⟩
  | opens =>
    have hlt := hp.start_lt_stop hleads.within
    have hle := hp.stop_le_stop hrow.le hrow.within
    exact ⟨rfl, Options.unbroken_debugOpen hu c.line, hleads.line_of_le hp (Nat.le_refl _)
      (Nat.le_trans (Nat.le_of_lt hlt) (Nat.le_trans hle hrow.stop_last))⟩
  | closes hlast hfirst =>
    refine ⟨rfl, (by decide : Unbroken debugClose), hstop hfirst ?_⟩
    rw [hlast]
    split <;> omega

end Script

namespace Python

variable {o : Outline} {options : Options} {c : Comment} {e : Edit} {source : List Char}

theorem mem_of_onlyStatement {stmts : List Statement} {s : Statement}
    (h : onlyStatement o stmts c = some s) :
    s ∈ stmts ∧ o.line s.last = c.line ∧ o.stop s.last ≤ c.start := by
  unfold onlyStatement at h
  split at h
  · next s' hs =>
    obtain rfl := Option.some.inj h
    have hmem : s' ∈ stmts.filter fun s => o.line s.last = c.line && o.stop s.last ≤ c.start :=
      hs ▸ List.mem_cons_self
    simpa using hmem
  · cases h

/-- The names on the left of an assignment stand on its line. -/
theorem unbroken_assignmentEdits {s : Statement} {op : Nat} (hu : Unbroken options.debugFunction)
    (hp : o.Placed) (hleads : o.Leads s.first c) (hstop : o.stop s.last ≤ c.start)
    (hlast : s.last < o.size) (hop : op ≤ s.last) (he : e ∈ assignmentEdits o options c.line s op) :
    e.stop = e.start ∧ e.start = o.stop s.last ∧ Unbroken e.text := by
  unfold assignmentEdits at he
  extract_lets targetsEnd plain targets names reported at he
  split at he
  · cases he
  · split at he
    · cases he
    · obtain rfl := List.mem_singleton.mp he
      refine ⟨rfl, rfl, ?_⟩
      have hends : targetsEnd ≤ s.last := by
        change (find o s.first op ":").getD op ≤ s.last
        cases hfind : find o s.first op ":" with
        | none => exact hop
        | some k =>
          have hbound := Outline.mem_upTo.mp (findOutside_eq_some hfind).1
          exact Nat.le_trans (Nat.le_of_lt_succ hbound.2) hop
      have hnames : Unbroken names := by
        have hle := hp.stop_le_stop (Nat.le_trans (Nat.sub_le _ 1) hends) hlast
        have hnone := hleads.unbroken hp (Nat.le_trans hle hstop)
        rwa [Unbroken, String.toList_ofList]
      have hreported : Unbroken reported := by
        dsimp only [reported]
        split
        · exact unbroken_append.mpr ⟨unbroken_append.mpr ⟨by decide, hnames⟩, by decide⟩
        · exact hnames
      exact unbroken_append.mpr ⟨by decide, options.unbroken_debugCall hu hreported c.line⟩

theorem marks_markerEdits (hu : Unbroken options.debugFunction)
    (hc : c ∈ (tokenize .python source).comments)
    (he : e ∈ markerEdits (tokenize .python source).outline options
      (statements (tokenize .python source).outline) c) : Marks source c e := by
  unfold markerEdits at he
  split at he
  · cases he
  · next s hs =>
    obtain ⟨hmem, hline, hstop⟩ := mem_of_onlyStatement hs
    obtain ⟨hle, hlt⟩ := bounds_statements _ s hmem
    have hp := placed_tokenize .python source
    extract_lets head at he
    split at he
    · cases he
    · next hnot =>
      simp only [Bool.or_eq_true, not_or, decide_eq_true_eq, Decidable.not_not] at hnot
      have hleads : (tokenize .python source).outline.Leads s.first c :=
        ⟨Nat.lt_of_le_of_lt hle hlt, hnot.1.1.1.1.2, (Lexed.comment_placed hc).line⟩
      have hstart : (tokenize .python source).outline.start s.first
          ≤ (tokenize .python source).outline.stop s.last :=
        Nat.le_trans (Nat.le_of_lt (hp.start_lt_stop hleads.within)) (hp.stop_le_stop hle hlt)
      have hend := hleads.line_of_le hp hstart hstop
      split at he
      · next op hop =>
        have hbound := Outline.mem_upTo.mp (findOutside_eq_some hop).1
        obtain ⟨hinsert, hplace, hunbroken⟩ :=
          unbroken_assignmentEdits hu hp hleads hstop hlt (Nat.le_of_lt_succ hbound.2) he
        exact ⟨hinsert, hunbroken, hplace ▸ hend⟩
      · split at he
        · cases he
        · simp only [List.mem_cons, List.not_mem_nil, or_false] at he
          rcases he with rfl | rfl
          · exact ⟨rfl, Options.unbroken_debugOpen hu c.line,
              hleads.line_of_le hp (Nat.le_refl _) (Nat.le_trans hstart hstop)⟩
          · exact ⟨rfl, (by decide : Unbroken debugClose), hend⟩

end Python

namespace Instrument

/-- The markers of a snippet. -/
def markers (code : String) : Language → List Comment
  | .javascript | .typescript => (tokenize .script code.toList).comments.filter Script.isMarker
  | .python => (tokenize .python code.toList).comments.filter Python.isMarker

theorem grown_preprocess (code : String) (language : Language) {options : Options}
    (h : Unbroken options.debugFunction) :
    Text.Grown (fun n => ∃ c ∈ markers code language, c.line = n + 1) 0 code.toList
      (preprocess code language options).toList := by
  have hgrown {x : Lexed} {p : Comment → Bool} {edits : Comment → List Edit}
      (hsub : ∀ c ∈ x.comments.filter p, c ∈ markers code language)
      (hmarks : ∀ c ∈ x.comments, ∀ e ∈ edits c, Marks code.toList c e) :
      Text.Grown (fun n => ∃ c ∈ markers code language, c.line = n + 1) 0 code.toList
        (Edit.apply ((x.comments.filter p).flatMap edits) code.toList) := by
    refine Edit.grown_apply fun e he => ?_
    obtain ⟨c, hc, he⟩ := List.mem_flatMap.mp he
    have hmark := hmarks c (List.mem_filter.mp hc).1 e he
    refine ⟨hmark.stop, hmark.unbroken, c, hsub c hc, ?_⟩
    rw [← hmark.line, Nat.add_comm]
  unfold preprocess
  split
  · exact .refl _ _
  · rw [String.toList_ofList]
    cases language with
    | javascript | typescript =>
      exact hgrown (fun _ hc => hc) fun _ hc _ he => Script.marks_markerEdits h hc he
    | python => exact hgrown (fun _ hc => hc) fun _ hc _ he => Python.marks_markerEdits h hc he

/-- Markers only insert: the snippet is the result without what was inserted, there are as many lines
as before, and every line on which no marker stands is unchanged. -/
theorem preprocess_inserts (code : String) (language : Language) (options : Options)
    (h : Unbroken options.debugFunction) :
    let lines := code.toList.splitOn '\n'
    let lines' := (preprocess code language options).toList.splitOn '\n'
    (∃ pieces : List (List Char × List Char), pieces.flatMap Prod.fst = code.toList ∧
      pieces.flatMap (fun p => p.1 ++ p.2) = (preprocess code language options).toList ∧
      ∀ p ∈ pieces, '\n' ∉ p.2) ∧
    lines'.length = lines.length ∧
    ∀ (n : Nat) (line line' : List Char), lines[n]? = some line → lines'[n]? = some line' →
      line.Sublist line' ∧ ((∀ c ∈ markers code language, c.line ≠ n + 1) → line' = line) := by
  intro lines lines'
  have hgrown := grown_preprocess code language h
  refine ⟨hgrown.pieces, hgrown.keeps.length, fun n line line' hn hn' => ?_⟩
  obtain ⟨hsub, heq⟩ := hgrown.keeps.line hn hn'
  refine ⟨hsub, fun hnone => heq ?_⟩
  rintro ⟨c, hc, hline⟩
  rw [Nat.zero_add] at hline
  exact hnone c hc hline

/-- The line below a marker is unchanged, whatever stands on it. -/
theorem preprocess_inserts_of_marker :
    let code := "x = 1 //?\nlog(x)\n"
    let lines' := (preprocess code .javascript {}).toList.splitOn '\n'
    Unbroken "__livepad_debug" ∧ lines'.length = 3 ∧ ∀ line ∈ lines'[1]?, line = "log(x)".toList := by
  intro code lines'
  have hu : Unbroken "__livepad_debug" := by decide
  obtain ⟨-, hlength, hlines⟩ := preprocess_inserts code .javascript {} hu
  have hsource : code.toList.splitOn '\n' = ["x = 1 //?".toList, "log(x)".toList, []] := by
    decide +kernel
  have hmarkers : ∀ c ∈ markers code .javascript, c.line ≠ 1 + 1 := by decide +kernel
  rw [hsource] at hlength hlines
  exact ⟨hu, hlength, fun line hline => (hlines 1 "log(x)".toList line rfl hline).2 hmarkers⟩

end Instrument

end Scratchpad
