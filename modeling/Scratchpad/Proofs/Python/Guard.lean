import Scratchpad.Proofs.Python.Site

/-!
The edits that instrumentation makes for the statements of a Python program: a guard around the items
or the condition of a loop, or a report around an expression. They are fences: what is written around a
part of a statement closes the brackets that it opens. Fences in the statements of a program stand one
behind the other, hence so do the edits that are carried out.
-/
namespace Scratchpad.Python

open Instrument (Options debugClose)
open Shard (IsName tokensOf rowOf)
open Text (Edit)
open Token (settleAll)

variable {o : Outline} {options : Options} {source : List Char} {s t : Statement} {stmts : List Statement}
  {e a b : Edit} {es fs gs ws : List Edit} {r r' : Statement → List Edit → Prop} {i j k n : Nat}

/-- The brackets that edits open and close. -/
def bracketsOf (es : List Edit) : List Token := es.flatMap fun e => tokensOf (rowOf e)

/-- Edits within one statement, in their order, that close the brackets that they open. -/
structure Fence (o : Outline) (options : Options) (s : Statement) (es : List Edit) : Prop where
  placing : ∀ e ∈ es, Placing o options e
  other : ∀ e ∈ es, ∀ i, isPrintHead o i → e ≠ callEdit o options i
  sorted : es.Pairwise fun a b => Edit.le b a = false
  start : ∀ e ∈ es, o.start s.first ≤ e.start ∧ (e.kind = .close → o.start s.first < e.start)
  stop : ∀ e ∈ es, e.start ≤ o.stop s.last ∧ (e.kind ≠ .close → e.start < o.stop s.last)
  settles : ∀ stack, settleAll stack (bracketsOf es) = some stack

theorem Fence.nil : Fence o options s [] where
  placing e he := by cases he
  other e he := by cases he
  sorted := .nil
  start e he := by cases he
  stop e he := by cases he
  settles _ := rfl

theorem tokensOf_rowOf (e : Edit) : tokensOf (rowOf e) = bareTokens e.text.toList := (bareTokens_eq _).symm

theorem le_eq_false (h : a.start < b.start) : Edit.le b a = false := by
  refine Bool.eq_false_iff.mpr fun hle => ?_
  have hstart := Edit.start_le_of_le hle
  omega

/-- What is opened at or behind the start of a statement is closed up to its end. -/
theorem Fence.pair (ha : Placing o options a) (hb : Placing o options b) (hka : a.kind ≠ .close)
    (hkb : b.kind = .close) (hother : ∀ i, isPrintHead o i → a ≠ callEdit o options i)
    (hopen : Opening n a.text) (hclose : Closing n b.text) (hstart : o.start s.first ≤ a.start)
    (hlt : a.start < b.start) (hstop : b.start ≤ o.stop s.last) : Fence o options s [a, b] where
  placing := List.forall_mem_cons.mpr ⟨ha, List.forall_mem_singleton.mpr hb⟩
  other := List.forall_mem_cons.mpr ⟨hother, List.forall_mem_singleton.mpr fun i _ heq => by
    rw [heq] at hkb
    cases hkb⟩
  sorted := List.pairwise_pair.mpr (le_eq_false hlt)
  start := List.forall_mem_cons.mpr ⟨⟨hstart, fun h => absurd h hka⟩,
    List.forall_mem_singleton.mpr ⟨by omega, fun _ => by omega⟩⟩
  stop := List.forall_mem_cons.mpr ⟨⟨by omega, fun _ => by omega⟩,
    List.forall_mem_singleton.mpr ⟨hstop, fun h => absurd hkb h⟩⟩
  settles stack := by
    simp only [bracketsOf, List.flatMap_cons, List.flatMap_nil, List.append_nil, tokensOf_rowOf]
    rw [Token.settleAll_append, hopen.settles, Option.bind_some, hclose.settles]

/-- Edits in the order of the statements that they are made for, as `r` says for each of them. -/
inductive Spread (r : Statement → List Edit → Prop) : List Statement → List Edit → Prop where
  | nil : Spread r [] []
  | cons {s : Statement} {stmts : List Statement} {es fs : List Edit} (hs : r s es)
      (hstmts : Spread r stmts fs) : Spread r (s :: stmts) (es ++ fs)

namespace Spread

theorem imp (h : Spread r stmts es) (hr : ∀ s ∈ stmts, ∀ es, r s es → r' s es) : Spread r' stmts es := by
  induction h with
  | nil => exact .nil
  | cons hs hrest ih =>
    obtain ⟨hr, hrs⟩ := List.forall_mem_cons.mp hr
    exact .cons (hr _ hs) (ih hrs)

/-- Every edit is made for some statement. -/
theorem of_mem (h : Spread r stmts es) (he : e ∈ es) : ∃ s ∈ stmts, ∃ fs, r s fs ∧ e ∈ fs := by
  induction h with
  | nil => cases he
  | @cons s stmts es fs hs hrest ih =>
    rcases List.mem_append.mp he with he | he
    · exact ⟨s, List.mem_cons_self, es, hs, he⟩
    · obtain ⟨t, ht, hrest⟩ := ih he
      exact ⟨t, List.mem_cons_of_mem s ht, hrest⟩

/-- Edits of two sorts for the same statements, put in the order of the statements. -/
theorem merge (h : Spread r stmts gs) (h' : Spread r' stmts ws) :
    ∃ es, (gs ++ ws).Perm es ∧
      Spread (fun s es => ∃ fs fs', r s fs ∧ r' s fs' ∧ es = fs ++ fs') stmts es := by
  induction h generalizing ws with
  | nil =>
    cases h'
    exact ⟨[], .nil, .nil⟩
  | @cons s stmts es gs hs hrest ih =>
    cases h' with
    | @cons _ _ es' ws hs' hrest' =>
      obtain ⟨all, hperm, hall⟩ := ih hrest'
      refine ⟨es ++ es' ++ all, ?_, .cons ⟨es, es', hs, hs', rfl⟩ hall⟩
      rw [List.append_assoc, List.append_assoc]
      refine List.Perm.append_left es ?_
      rw [← List.append_assoc]
      exact (List.perm_append_comm.append_right ws).trans
        (List.append_assoc es' gs ws ▸ hperm.append_left es')

theorem settles (h : Spread (Fence o options) stmts es) (stack : List String) :
    settleAll stack (bracketsOf es) = some stack := by
  induction h with
  | nil => rfl
  | cons hs hrest ih =>
    rw [bracketsOf, List.flatMap_append, Token.settleAll_append]
    exact (congrArg (Option.bind · _) (hs.settles stack)).trans ih

/-- The fences of statements that stand one behind the other do so, too. -/
theorem sorted (h : Spread (Fence o options) stmts es) (hp : o.Placed)
    (hwithin : ∀ s ∈ stmts, s.first < o.size) (hstmts : stmts.Pairwise fun s t => s.last < t.first) :
    es.Pairwise fun a b => Edit.le b a = false := by
  induction h with
  | nil => exact .nil
  | @cons s stmts es fs hs hrest ih =>
    obtain ⟨hlast, hstmts⟩ := List.pairwise_cons.mp hstmts
    obtain ⟨-, hwithin⟩ := List.forall_mem_cons.mp hwithin
    refine List.pairwise_append.mpr ⟨hs.sorted, ih hwithin hstmts, fun a ha b hb => ?_⟩
    obtain ⟨t, ht, gs, hgs, hb⟩ := hrest.of_mem hb
    obtain ⟨hstart, hstart'⟩ := hgs.start b hb
    obtain ⟨hstop, hstop'⟩ := hs.stop a ha
    have hbetween := hp.stop_le_start (hlast t ht) (hwithin t ht)
    rcases Nat.lt_or_eq_of_le (Nat.le_trans hstop (Nat.le_trans hbetween hstart)) with hlt | heq
    · exact le_eq_false hlt
    · -- at one place, what closes stands in front of what does not
      have hclose : a.kind = .close := Decidable.byContradiction fun hk => by
        have hlt := hstop' hk
        omega
      have hopen : b.kind ≠ .close := fun hk => by
        have hlt := hstart' hk
        omega
      refine Bool.eq_false_iff.mpr fun hle => ?_
      simp only [Edit.le, Bool.or_eq_true, Bool.and_eq_true, decide_eq_true_eq, beq_iff_eq] at hle
      have hrank : b.kind.rank ≤ a.kind.rank := by omega
      rw [hclose] at hrank
      cases hk : b.kind with
      | close => exact hopen hk
      | opens | replace =>
        rw [hk] at hrank
        cases hrank

end Spread

/-! ### Guards and reports -/

/-- The two edits that guard the loop of a statement. -/
inductive Guard (o : Outline) (options : Options) (s : Statement) : Edit → Edit → Prop where
  | items {inWord colon : Nat} (hl : s.startsLine) (hw : o.text s.first = "for")
      (hi : find o (s.first + 1) s.last "in" = some inWord)
      (hc : find o (inWord + 1) s.last ":" = some colon) (hne : colon ≠ inWord + 1) :
      Guard o options s (.openAt (o.start (inWord + 1)) "__livepad_iter((")
        (.closeAt (o.stop (colon - 1)) ("), " ++ limits options))
  | check {colon number : Nat} (hl : s.startsLine) (hw : o.text s.first = "while")
      (hc : find o (s.first + 1) s.last ":" = some colon) (hne : colon ≠ s.first + 1)
      (ht : testFor o s.first colon = .inPlace) :
      Guard o options s (.openAt (o.start (s.first + 1)) s!"__livepad_check({number}, (")
        (.closeAt (o.stop (colon - 1)) ("), " ++ limits options))
  | loop {colon : Nat} {w close : String} (hl : s.startsLine) (hw : o.text s.first = "while")
      (hc : find o (s.first + 1) s.last ":" = some colon) (hne : colon ≠ s.first + 1)
      (hh : (testFor o s.first colon).head? = some w) (hs : Closing (testFor o s.first colon).depth close) :
      Guard o options s ⟨o.start s.first, o.start (s.first + 1), .replace, w⟩
        (.closeAt (o.stop (colon - 1)) close)

/-- A statement has no guard or one. -/
def Guarded (o : Outline) (options : Options) (s : Statement) (es : List Edit) : Prop :=
  es = [] ∨ options.loopProtection ∧ ∃ a b, Guard o options s a b ∧ es = [a, b]

theorem guarded_for (hp : options.loopProtection) (hl : s.startsLine) (hw : o.text s.first = "for") :
    Guarded o options s (forEdits o options s) := by
  unfold forEdits
  split
  · exact .inl rfl
  · next inWord hi =>
    split
    · exact .inl rfl
    · next colon hc =>
      split
      · exact .inl rfl
      · next hne => exact .inr ⟨hp, _, _, .items hl hw hi hc hne, rfl⟩

theorem guarded_while (hp : options.loopProtection) {colon number : Nat} (hl : s.startsLine)
    (hw : o.text s.first = "while") (hc : find o (s.first + 1) s.last ":" = some colon) (hne : colon ≠ s.first + 1) :
    Guarded o options s (whileEdits o options number s colon (testFor o s.first colon)) := by
  have hloop {w close : String} (hh : (testFor o s.first colon).head? = some w)
      (hs : Closing (testFor o s.first colon).depth close) :
      Guarded o options s [⟨o.start s.first, o.start (s.first + 1), .replace, w⟩,
        .closeAt (o.stop (colon - 1)) close] := .inr ⟨hp, _, _, .loop hl hw hc hne hh hs, rfl⟩
  cases ht : testFor o s.first colon with
  | inPlace => exact .inr ⟨hp, _, _, .check hl hw hc hne ht, rfl⟩
  | generator async =>
    rw [ht] at hloop
    cases async
    · exact hloop rfl (closing_repeat options)
    · exact hloop rfl (closing_repeat options)
  | function =>
    rw [ht] at hloop
    exact hloop rfl (closing_limits options)

theorem spread_guards (hp : options.loopProtection) {checks : Nat} :
    Spread (Guarded o options) stmts (guardEditsFrom o options checks stmts) := by
  have hskip {s : Statement} {stmts : List Statement} {es : List Edit}
      (h : Spread (Guarded o options) stmts es) : Spread (Guarded o options) (s :: stmts) es :=
    h.cons (.inl rfl)
  induction stmts generalizing checks with
  | nil => exact .nil
  | cons s stmts ih =>
    rw [guardEditsFrom]
    split
    · exact hskip ih
    · next hline =>
      have hl : s.startsLine = true := by simpa using hline
      split
      · next hw => exact .cons (guarded_for hp hl (beq_iff_eq.mp hw)) ih
      · split
        · next hw =>
          split
          · exact hskip ih
          · next colon hc =>
            split
            · exact hskip ih
            · next hne => exact .cons (guarded_while hp hl (beq_iff_eq.mp hw) hc hne) ih
        · exact hskip ih

/-- The statements with reports; `isFirst` and `topLevel` are as for the edits. -/
def reportedFrom (o : Outline) (options : Options) (isFirst topLevel : Bool) :
    List Statement → List Statement
  | [] => []
  | s :: stmts =>
    let column := (o.tokens[s.first]?.map Token.column).getD 1
    let topLevel := if s.startsLine then column = 1 else topLevel
    let rest := reportedFrom o options false topLevel stmts
    if topLevel && isExpressionStatement o options isFirst s then s :: rest else rest

/-- The statements whose values are reported. -/
def reported (o : Outline) (options : Options) : List Statement :=
  if options.wrapExpressions then reportedFrom o options true false (statements o) else []

def reportEdits (o : Outline) (options : Options) (s : Statement) : List Edit :=
  [.openAt (o.start s.first) (options.debugOpen (o.line s.first)), .closeAt (o.stop s.last) debugClose]

/-- The column in which token `i` starts. -/
def column (o : Outline) (i : Nat) : Nat := (o.tokens[i]?.map Token.column).getD 1

/-- Whether the logical line of `s` starts in the first column, if `topLevel` says it for the line
of the statement in front of it. -/
def levelAt (o : Outline) (topLevel : Bool) (s : Statement) : Bool :=
  if s.startsLine then column o s.first = 1 else topLevel

theorem decide_level {topLevel : Bool} : decide (if s.startsLine then
    (o.tokens[s.first]?.map Token.column).getD 1 = 1 else topLevel) = levelAt o topLevel s := by
  unfold levelAt column
  split <;> simp

theorem reportedFrom_cons {isFirst topLevel : Bool} :
    reportedFrom o options isFirst topLevel (s :: stmts)
      = (if levelAt o topLevel s && isExpressionStatement o options isFirst s then [s] else [])
        ++ reportedFrom o options false (levelAt o topLevel s) stmts := by
  rw [reportedFrom, decide_level]
  split <;> rfl

theorem spread_reports {isFirst topLevel : Bool} {p : Statement → Prop}
    (hp : ∀ s ∈ reportedFrom o options isFirst topLevel stmts, p s) :
    Spread (fun s es => es = [] ∨ p s ∧ es = reportEdits o options s) stmts
      (wrapEditsFrom o options isFirst topLevel stmts) := by
  induction stmts generalizing isFirst topLevel with
  | nil => exact .nil
  | cons s stmts ih =>
    rw [reportedFrom_cons] at hp
    rw [wrapEditsFrom, decide_level]
    obtain ⟨hs, hp⟩ := List.forall_mem_append.mp hp
    split
    · next hreport =>
      rw [if_pos hreport] at hs
      exact .cons (.inr ⟨List.forall_mem_singleton.mp hs, rfl⟩) (ih hp)
    · exact .cons (.inl rfl) (ih hp)

theorem isExpressionStatement_of_reported {isFirst topLevel : Bool}
    (h : s ∈ reportedFrom o options isFirst topLevel stmts) :
    ∃ b, isExpressionStatement o options b s := by
  induction stmts generalizing isFirst topLevel with
  | nil => cases h
  | cons t stmts ih =>
    rw [reportedFrom_cons] at h
    rcases List.mem_append.mp h with h | h
    · split at h
      · next hreport =>
        obtain rfl := List.mem_singleton.mp h
        exact ⟨isFirst, (Bool.and_eq_true_iff.mp hreport).2⟩
      · cases h
    · exact ih h

/-- A word that is no bracket keeps a stretch even. -/
theorem even_behind {w : String} (he : o.Even 0 k) (hk : k < o.size) (ht : o.text k = w)
    (hw : Token.isOpener w = false ∧ Token.isCloser w = false) : o.Even 0 (k + 1) :=
  he.append (even_word hk ht hw)

/-- The items or the condition of a loop: what stands behind token `k` and in front of the colon. -/
structure Ring (o : Outline) (s : Statement) (k colon : Nat) : Prop where
  first : s.first ≤ k
  lt : k + 1 < colon
  last : colon ≤ s.last
  front : o.Even 0 (k + 1)
  back : o.Even 0 (colon - 1 + 1)
  text : o.text (colon - 1 + 1) = ":"

theorem Clean.ring (h : Clean source o) (hs : Whole o s) (hk : s.first ≤ k) (hw : o.Even 0 (k + 1))
    {colon : Nat} (hc : find o (k + 1) s.last ":" = some colon) (hne : colon ≠ k + 1) :
    Ring o s k colon := by
  obtain ⟨heven, hle, hle', htext⟩ := find_eq_some h.settled hw hs.within hc
  have hpred : colon - 1 + 1 = colon := by omega
  exact ⟨hk, by omega, hle', hw, hpred.symm ▸ heven, hpred.symm ▸ htext⟩

theorem Clean.ring_for (h : Clean source o) (hs : Whole o s) (hw : o.text s.first = "for")
    {inWord colon : Nat} (hi : find o (s.first + 1) s.last "in" = some inWord)
    (hc : find o (inWord + 1) s.last ":" = some colon) (hne : colon ≠ inWord + 1) :
    Ring o s inWord colon ∧ o.text inWord = "in" := by
  have hwithin := hs.within
  have hfor := even_behind hs.front (Nat.lt_of_le_of_lt hs.le hs.within) hw (by decide)
  obtain ⟨heven, hle, hle', htext⟩ := find_eq_some h.settled hfor hs.within hi
  exact ⟨h.ring hs (by omega) (even_behind heven (by omega) htext (by decide)) hc hne, htext⟩

theorem Clean.ring_while (h : Clean source o) (hs : Whole o s) (hw : o.text s.first = "while")
    {colon : Nat} (hc : find o (s.first + 1) s.last ":" = some colon) (hne : colon ≠ s.first + 1) :
    Ring o s s.first colon :=
  h.ring hs (Nat.le_refl _)
    (even_behind hs.front (Nat.lt_of_le_of_lt hs.le hs.within) hw (by decide)) hc hne

/-- The guard that is opened behind a word is among the edits. -/
theorem mem_guards_of_guardWord? {checks : Nat} (hs : s ∈ stmts) (hk : guardWord? o s = some k) :
    ∃ a b, Guard o options s a b ∧ a.start = o.start (k + 1) ∧
      a ∈ guardEditsFrom o options checks stmts := by
  induction stmts generalizing checks with
  | nil => cases hs
  | cons t stmts ih =>
    rcases List.mem_cons.mp hs with rfl | hs
    · obtain ⟨hl, ⟨hw, hi, colon, hc, hne⟩ | ⟨hw, rfl, colon, hc, hne, ht⟩⟩ :=
        guardWord?_eq_some.mp hk
      · refine ⟨_, _, .items hl hw hi hc hne, rfl, ?_⟩
        simp [guardEditsFrom, forEdits, hl, Outline.is, hw, hi, hc, hne]
      · have hcheck : Guard o options s
            (.openAt (o.start (s.first + 1)) s!"__livepad_check({checks + 1}, (") _ :=
          .check hl hw hc hne ht
        refine ⟨_, _, hcheck, rfl, ?_⟩
        simp [guardEditsFrom, whileEdits, hl, Outline.is, hw, hc, hne, ht]
    · obtain ⟨es, checks', heq⟩ := @exists_guardEditsFrom o options checks t stmts
      obtain ⟨a, b, hg, hstart, ha⟩ := @ih checks' hs
      exact ⟨a, b, hg, hstart, heq ▸ List.mem_append_right es ha⟩

/-- What a word that a guard is opened behind is in front of. -/
theorem Clean.ring_of_guardWord? (h : Clean source o) (hs : Whole o s) (hk : guardWord? o s = some k) :
    ∃ colon, Ring o s k colon := by
  obtain ⟨-, ⟨hw, hi, colon, hc, hne⟩ | ⟨hw, rfl, colon, hc, hne, -⟩⟩ := guardWord?_eq_some.mp hk
  · exact ⟨colon, (h.ring_for hs hw hi hc hne).1⟩
  · exact ⟨colon, h.ring_while hs hw hc hne⟩

theorem eq_first_of_guardWord? (hw : o.text s.first = "while") (hk : guardWord? o s = some k) :
    k = s.first := by
  obtain ⟨-, ⟨hfor, -⟩ | ⟨-, hk, -⟩⟩ := guardWord?_eq_some.mp hk
  · exact absurd (hw.symm.trans hfor) (by decide)
  · exact hk.symm

/-- What a guard encloses, and where it is closed. -/
theorem Clean.ring_of_guard (h : Clean source o) (hs : Whole o s) (hg : Guard o options s a b) :
    ∃ k colon, Ring o s k colon ∧ b.start = o.stop (colon - 1) ∧
      ∀ j, guardWord? o s = some j → j = k := by
  cases hg with
  | @items inWord colon hl hw hi hc hne =>
    refine ⟨inWord, colon, (h.ring_for hs hw hi hc hne).1, rfl, fun j hj => ?_⟩
    obtain ⟨-, ⟨-, hj, -⟩ | ⟨hj, -⟩⟩ := guardWord?_eq_some.mp hj
    · exact Option.some.inj (hj.symm.trans hi)
    · exact absurd (hj.symm.trans hw) (by decide)
  | check hl hw hc hne ht =>
    exact ⟨s.first, _, h.ring_while hs hw hc hne, rfl, fun j hj => eq_first_of_guardWord? hw hj⟩
  | loop hl hw hc hne =>
    exact ⟨s.first, _, h.ring_while hs hw hc hne, rfl, fun j hj => eq_first_of_guardWord? hw hj⟩

theorem Guard.opening (hg : Guard o options s a b) : ∃ n, Opening n a.text := by
  cases hg with
  | items => exact ⟨2, opening_iter⟩
  | check => exact ⟨2, opening_check⟩
  | loop hl hw hc hne hh => exact ⟨_, opening_head hh⟩

/-- Where the two edits of a guard stand. -/
structure Spot (o : Outline) (s : Statement) (i j : Nat) : Prop where
  first : s.first ≤ i
  le : i ≤ j
  last : j ≤ s.last
  within : s.last < o.size

theorem Spot.starts (h : Spot o s i j) (hp : o.Placed) : o.start s.first ≤ o.start i ∧
    o.start i < o.stop j ∧ o.stop j ≤ o.stop s.last := by
  have hi := h.le
  have hj := h.last
  have hs := h.within
  refine ⟨hp.start_le_start h.first (by omega), ?_, hp.stop_le_stop hj hs⟩
  exact Nat.lt_of_lt_of_le (hp.start_lt_stop (by omega)) (hp.stop_le_stop hi (by omega))

theorem mem_guardWords (hp : options.loopProtection) (hs : s ∈ statements o) (hk : guardWord? o s = some k) :
    k ∈ guardWords o options := by
  rw [guardWords, if_pos hp]
  exact List.mem_filterMap.mpr ⟨s, hs, hk⟩

theorem openAt_ne_callEdit {p : Nat} {w : String} : Edit.openAt p w ≠ callEdit o options i :=
  fun h => by cases congrArg Edit.kind h

/-- The `while` of a loop is no head of a call. -/
theorem Clean.ne_callEdit (h : Clean source o) (hk : k < o.size) (hw : o.text k = "while") {w : String}
    (hi : isPrintHead o i) : ⟨o.start k, n, .replace, w⟩ ≠ callEdit o options i := by
  intro heq
  have hlt := Nat.lt_of_succ_lt (lt_size_of_isPrintHead hi)
  obtain rfl : k = i := h.seated.placed.start_inj hk hlt (congrArg Edit.start heq)
  exact absurd (hw.symm.trans (text_of_isPrintHead hi).1) (by decide)

theorem Guard.fence (h : Clean source o) (hp : options.loopProtection) (hs : s ∈ statements o)
    (hg : Guard o options s a b) : Fence o options s [a, b] := by
  have hwhole := whole_statements h.settled s hs
  have hwithin := hwhole.within
  have hopens (p : Nat) (w : String) : (Edit.openAt p w).kind ≠ .close := fun hk => by cases hk
  cases hg with
  | @items inWord colon hl hw hi hc hne =>
    obtain ⟨⟨hfirst, hlt, hlast, hfront, hback, -⟩, -⟩ := h.ring_for hwhole hw hi hc hne
    have hspot : Spot o s (inWord + 1) (colon - 1) := ⟨by omega, by omega, by omega, hwithin⟩
    obtain ⟨hstart, hbetween, hstop⟩ := hspot.starts h.seated.placed
    have hguard : inWord ∈ guardWords o options := mem_guardWords hp hs (by
      simp [guardWord?, hl, Outline.is, hw, hi, hc, hne])
    exact .pair (.opens opening_iter (by omega) hfront (.inr ⟨inWord, hguard, rfl⟩))
      (.closes (closing_limits options) (by omega) hback) (hopens _ _) rfl
      (fun _ _ => openAt_ne_callEdit) opening_iter (closing_limits options) hstart hbetween hstop
  | @check colon number hl hw hc hne ht =>
    obtain ⟨hfirst, hlt, hlast, hfront, hback, -⟩ := h.ring_while hwhole hw hc hne
    have hspot : Spot o s (s.first + 1) (colon - 1) := ⟨by omega, by omega, by omega, hwithin⟩
    obtain ⟨hstart, hbetween, hstop⟩ := hspot.starts h.seated.placed
    have hguard : s.first ∈ guardWords o options := mem_guardWords hp hs (by
      simp [guardWord?, hl, Outline.is, hw, hc, hne, ht])
    exact .pair (.opens opening_check (by omega) hfront (.inr ⟨s.first, hguard, rfl⟩))
      (.closes (closing_limits options) (by omega) hback) (hopens _ _) rfl
      (fun _ _ => openAt_ne_callEdit) opening_check (closing_limits options) hstart hbetween hstop
  | @loop colon w close hl hw hc hne hh hclose =>
    obtain ⟨hfirst, hlt, hlast, hfront, hback, -⟩ := h.ring_while hwhole hw hc hne
    have hspot : Spot o s s.first (colon - 1) := ⟨by omega, by omega, by omega, hwithin⟩
    obtain ⟨hstart, hbetween, hstop⟩ := hspot.starts h.seated.placed
    exact .pair (.loop (opening_head hh) (by omega) hwhole.front hw)
      (.closes hclose (by omega) hback) (fun hk => by cases hk) rfl
      (fun _ hi => h.ne_callEdit (by omega) hw hi) (opening_head hh) hclose hstart hbetween hstop

theorem fence_report (h : Clean source o) (hf : IsName options.debugFunction.toList)
    (hs : s ∈ statements o) : Fence o options s (reportEdits o options s) := by
  have hwhole := whole_statements h.settled s hs
  have hspot : Spot o s s.first s.last := ⟨Nat.le_refl _, hwhole.le, Nat.le_refl _, hwhole.within⟩
  obtain ⟨hstart, hbetween, hstop⟩ := hspot.starts h.seated.placed
  have hwithin := hwhole.within
  have hle := hwhole.le
  exact .pair (.opens (opening_report hf) (by omega) hwhole.front (.inl hwhole.begins))
    (.closes closing_report hwithin hwhole.all) (fun hk => by cases hk) rfl
    (fun _ _ => openAt_ne_callEdit) (opening_report hf) closing_report hstart hbetween hstop

/-- A statement that starts with such a word is no expression. -/
theorem Clean.not_isExpressionStatement (h : Clean source o) (hs : s ∈ statements o) {w : String}
    (hw : o.text s.first = w) (hname : IsName w.toList) (hmem : w ∈ statementWords) (isFirst : Bool) :
    isExpressionStatement o options isFirst s = false := by
  have hwhole := whole_statements h.settled s hs
  have hfirst : s.first < o.size := Nat.lt_of_le_of_lt hwhole.le hwhole.within
  obtain ⟨front, x, back, hseat⟩ := h.seated.seat s.first hfirst
  have htokens : x.tokens = (Shard.name w.toList).tokens :=
    congrArg Shard.tokens (h.eq_name hseat hw hname)
  have hkind : Token.Kind.ident = o.tokens[s.first].kind :=
    congrArg Token.kind (List.cons.inj (htokens.symm.trans hseat.token)).1
  have hident : o.isIdent s.first = true := by
    rw [Outline.isIdent, Outline.kind?, Array.getElem?_eq_getElem hfirst, Option.map_some, ← hkind]
    rfl
  simp [isExpressionStatement, hident, hw, hmem]

theorem Guard.not_isExpressionStatement (h : Clean source o) (hs : s ∈ statements o)
    (hg : Guard o options s a b) (isFirst : Bool) : isExpressionStatement o options isFirst s = false := by
  cases hg with
  | items hl hw => exact h.not_isExpressionStatement hs hw (by decide +kernel) (by decide) isFirst
  | check hl hw => exact h.not_isExpressionStatement hs hw (by decide +kernel) (by decide) isFirst
  | loop hl hw => exact h.not_isExpressionStatement hs hw (by decide +kernel) (by decide) isFirst

/-- The edits around statements, put in the order of the statements, are fences. -/
theorem exists_fences (h : Clean source o) (hf : IsName options.debugFunction.toList)
    (hgs : Spread (Guarded o options) (statements o) gs)
    (hws : Spread (fun s es => es = [] ∨ s ∈ reported o options ∧ es = reportEdits o options s)
      (statements o) ws) :
    ∃ es, (gs ++ ws).Perm es ∧ Spread (Fence o options) (statements o) es := by
  obtain ⟨es, hperm, hes⟩ := hgs.merge hws
  refine ⟨es, hperm, hes.imp fun s hs fs => ?_⟩
  rintro ⟨_, _, rfl | ⟨hp, a, b, hg, rfl⟩, rfl | ⟨hr, rfl⟩, rfl⟩
  · exact .nil
  · exact fence_report h hf hs
  · exact hg.fence h hp hs
  · unfold reported at hr
    split at hr
    · obtain ⟨isFirst, hexpr⟩ := isExpressionStatement_of_reported hr
      rw [hg.not_isExpressionStatement h hs] at hexpr
      cases hexpr
    · cases hr

end Scratchpad.Python
