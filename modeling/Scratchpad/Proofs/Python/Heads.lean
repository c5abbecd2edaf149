import Scratchpad.Proofs.Token.Rewriting
import Scratchpad.Python.Report

/-!
The heads that instrumentation of a Python program rewrites: `print` with its bracket, and a `while`
that becomes a `for`, up to the condition behind it.
-/
namespace Scratchpad

open Instrument (Options debugClose)
open Text (Edit)

namespace Python

/-- The word and the bracket of a call of `print`. -/
def isPrintHead (o : Outline) (i : Nat) : Bool :=
  o.is i "print" && o.is (i + 1) "(" && !(0 < i && o.isAny (i - 1) [".", "def"])

/-- What a `while` with this test becomes, unless it stays. -/
def Test.head? : Test → Option String
  | .inPlace => none
  | .generator true => some "async for __livepad_ in __livepad_until_async((("
  | .generator false => some "for __livepad_ in __livepad_until((("
  | .function => some "for __livepad_ in __livepad_while(lambda: ("

/-- What the `while` of a statement becomes, if it is a loop whose `while` does not stay. -/
def whileHead? (o : Outline) (s : Statement) : Option String :=
  if s.startsLine && o.is s.first "while" then
    match find o (s.first + 1) s.last ":" with
    | none => none
    | some colon => if colon = s.first + 1 then none else (testFor o s.first colon).head?
  else none

def printHeads (o : Outline) : List (Nat × Nat) :=
  ((List.range o.size).filter (isPrintHead o)).map fun i => (i, i + 1)

def whileHeads (o : Outline) : List (Nat × Nat) :=
  ((statements o).filter fun s => (whileHead? o s).isSome).map fun s => (s.first, s.first + 1)

/-- What an edit of a program does to the tokens. -/
inductive Shape (o : Outline) (options : Options) : Edit → Prop where
  | inserts {e : Edit} (hs : e.stop = e.start) (hk : e.kind ≠ .replace)
      (hw : e.stop ≤ o.source.length) : Shape o options e
  | print {i : Nat} (h : isPrintHead o i) : Shape o options ⟨o.start i, o.stop (i + 1), .replace,
      options.debugHead (o.line i) (!o.is (i + 2) ")")⟩
  | loop {s : Statement} {w : String} (hp : options.loopProtection) (hs : s ∈ statements o)
      (h : whileHead? o s = some w) :
      Shape o options ⟨o.start s.first, o.start (s.first + 1), .replace, w⟩

variable {o : Outline} {options : Options} {e f : Edit} {s t : Statement} {w : String} {i k : Nat}

theorem printEdit_eq_some : printEdit o options i = some e ↔ isPrintHead o i ∧
    e = ⟨o.start i, o.stop (i + 1), .replace,
      options.debugHead (o.line i) (!o.is (i + 2) ")")⟩ := by
  rw [printEdit, ← isPrintHead]
  split
  · next h => simp [h, eq_comm]
  · next h => simp [h]

theorem Shape.openAt (h : o.Placed) (i : Nat) (s : String) :
    Shape o options (.openAt (o.start i) s) := .inserts rfl nofun (h.start_le i)

theorem Shape.closeAt (h : o.Placed) (i : Nat) (s : String) :
    Shape o options (.closeAt (o.stop i) s) := .inserts rfl nofun (h.stop_le i)

theorem findOutside_eq_some {test : String → Bool} {depth : Nat} {is : List Nat}
    (h : findOutside o test depth is = some i) : i ∈ is ∧ test (o.text i) := by
  induction is generalizing depth with
  | nil => cases h
  | cons k is ih =>
    rw [findOutside] at h
    split at h
    · next hk =>
      cases h
      simp only [Bool.and_eq_true] at hk
      exact ⟨List.mem_cons_self, hk.2⟩
    · exact ⟨List.mem_cons_of_mem _ (ih h).1, (ih h).2⟩

/-- The first tokens of statements are some of the tokens, in their order. -/
theorem firsts_statementsFrom {depth : Nat} {current : Option Statement} {ts : List Token} :
    ∃ l, (statementsFrom i depth current ts).map Statement.first
        = current.toList.map Statement.first ++ l ∧ l.Sublist (List.range' i ts.length) := by
  induction ts generalizing i depth current with
  | nil => exact ⟨[], by simp [statementsFrom], .slnil⟩
  | cons t ts ih =>
    simp only [statementsFrom, List.length_cons, List.range'_succ]
    split
    · -- a semicolon ends the statement and belongs to none
      obtain ⟨l, hl, hsub⟩ := @ih (i + 1) depth none
      refine ⟨l, ?_, hsub.cons i⟩
      by_cases hends : (t.newlineBefore && depth = 0) = true <;> simp_all
    · -- the token belongs to the statement it finds, or starts one
      by_cases hends : (t.newlineBefore && depth = 0) = true
      · obtain ⟨l, hl, hsub⟩ := @ih (i + 1) (depthBehind depth t.text) (some ⟨i, i, t.newlineBefore⟩)
        exact ⟨i :: l, by simp_all, hsub.cons_cons i⟩
      · cases current with
        | none =>
          obtain ⟨l, hl, hsub⟩ :=
            @ih (i + 1) (depthBehind depth t.text) (some ⟨i, i, t.newlineBefore⟩)
          exact ⟨i :: l, by simp_all, hsub.cons_cons i⟩
        | some s =>
          obtain ⟨l, hl, hsub⟩ := @ih (i + 1) (depthBehind depth t.text) (some { s with last := i })
          rw [Bool.not_eq_true] at hends
          refine ⟨l, ?_, hsub.cons i⟩
          simp only [hends, Bool.false_eq_true, if_false, List.nil_append]
          exact hl

theorem pairwise_statements (o : Outline) :
    (statements o).Pairwise fun s t => s.first < t.first := by
  obtain ⟨l, hl, hsub⟩ := @firsts_statementsFrom 0 0 none o.tokens.toList
  rw [Option.toList_none, List.map_nil, List.nil_append] at hl
  exact List.pairwise_map.mp (hl ▸ (List.pairwise_lt_range' 1).sublist hsub)

theorem trichotomy_statements (hs : s ∈ statements o) (ht : t ∈ statements o) :
    s = t ∨ s.first < t.first ∨ t.first < s.first := by
  obtain ⟨a, ha, rfl⟩ := List.mem_iff_getElem.mp hs
  obtain ⟨b, hb, rfl⟩ := List.mem_iff_getElem.mp ht
  have hlt := List.pairwise_iff_getElem.mp (pairwise_statements o)
  rcases Nat.lt_trichotomy a b with hab | rfl | hba
  · exact .inr (.inl (hlt a b ha hb hab))
  · exact .inl rfl
  · exact .inr (.inr (hlt b a hb ha hba))

theorem text_of_isPrintHead (h : isPrintHead o i) : o.text i = "print" ∧ o.text (i + 1) = "(" := by
  simp only [isPrintHead, Bool.and_eq_true, Outline.is, beq_iff_eq] at h
  exact ⟨h.1.1, h.1.2⟩

theorem lt_size_of_isPrintHead (h : isPrintHead o i) : i + 1 < o.size :=
  Outline.lt_size (by rw [(text_of_isPrintHead h).2]; decide)

theorem whileHead?_eq_some : whileHead? o s = some w ↔ s.startsLine ∧ o.text s.first = "while" ∧
    ∃ colon, find o (s.first + 1) s.last ":" = some colon ∧ colon ≠ s.first + 1 ∧
      (testFor o s.first colon).head? = some w := by
  unfold whileHead?
  cases find o (s.first + 1) s.last ":" with
  | none => simp
  | some colon =>
    by_cases hc : colon = s.first + 1 <;> simp [hc, Outline.is, and_assoc]

/-- There is a condition behind a `while` that becomes a `for`. -/
theorem lt_size_of_whileHead? (h : whileHead? o s = some w) : s.first + 1 < o.size := by
  obtain ⟨-, -, colon, hfind, -, -⟩ := whileHead?_eq_some.mp h
  obtain ⟨hmem, htext⟩ := findOutside_eq_some hfind
  have hcolon : colon < o.size := Outline.lt_size (by rw [beq_iff_eq.mp htext]; decide)
  exact Nat.lt_of_le_of_lt (Outline.mem_upTo.mp hmem).1 hcolon

theorem unbroken_limits (options : Options) : Unbroken (limits options) :=
  unbroken_append.mpr ⟨unbroken_append.mpr ⟨unbroken_append.mpr ⟨unbroken_nat _, by decide⟩,
    unbroken_nat _⟩, by decide⟩

theorem unbroken_head? {test : Test} (h : test.head? = some w) : Unbroken w := by
  unfold Test.head? at h
  split at h <;> cases h <;> decide

theorem shape_for (h : o.Placed) :
    ∀ e ∈ forEdits o options s, Shape o options e ∧ Unbroken e.text := by
  unfold forEdits
  split
  · exact nofun
  · split
    · exact nofun
    · split
      · exact nofun
      · exact List.forall_mem_cons.mpr ⟨⟨.openAt h _ _, show Unbroken "__livepad_iter((" by decide⟩,
          List.forall_mem_singleton.mpr ⟨.closeAt h _ _,
            unbroken_append.mpr ⟨by decide, unbroken_limits options⟩⟩⟩

/-- A loop keeps its `while`, or gives it up as `Test.head?` says. -/
theorem shape_while (h : o.Placed) {number colon : Nat} {test : Test}
    (hloop : ∀ w, test.head? = some w →
      Shape o options ⟨o.start s.first, o.start (s.first + 1), .replace, w⟩ ∧ Unbroken w) :
    ∀ e ∈ whileEdits o options number s colon test, Shape o options e ∧ Unbroken e.text := by
  have hclose {s : String} (hs : Unbroken s) : Unbroken (s ++ limits options) :=
    unbroken_append.mpr ⟨hs, unbroken_limits options⟩
  cases test with
  | inPlace =>
    refine List.forall_mem_cons.mpr ⟨⟨.openAt h _ _, ?_⟩,
      List.forall_mem_singleton.mpr ⟨.closeAt h _ _, hclose (by decide)⟩⟩
    exact unbroken_append.mpr ⟨unbroken_append.mpr ⟨by decide, unbroken_nat _⟩, by decide⟩
  | generator async =>
    refine List.forall_mem_cons.mpr ⟨?_,
      List.forall_mem_singleton.mpr ⟨.closeAt h _ _, hclose (by decide)⟩⟩
    cases async <;> exact hloop _ rfl
  | function =>
    exact List.forall_mem_cons.mpr ⟨hloop _ rfl,
      List.forall_mem_singleton.mpr ⟨.closeAt h _ _, hclose (by decide)⟩⟩

theorem shape_guards (h : o.Placed) (hp : options.loopProtection) {checks : Nat}
    {stmts : List Statement} (hstmts : ∀ s ∈ stmts, s ∈ statements o) :
    ∀ e ∈ guardEditsFrom o options checks stmts, Shape o options e ∧ Unbroken e.text := by
  induction stmts generalizing checks with
  | nil => exact nofun
  | cons s stmts ih =>
    obtain ⟨hs, hstmts⟩ := List.forall_mem_cons.mp hstmts
    rw [guardEditsFrom]
    split
    · exact ih hstmts
    · next hline =>
      split
      · exact List.forall_mem_append.mpr ⟨shape_for h, ih hstmts⟩
      · split
        · next hw =>
          split
          · exact ih hstmts
          · next colon hfind =>
            split
            · exact ih hstmts
            · next hne =>
              refine List.forall_mem_append.mpr ⟨shape_while h fun w hhead => ?_, ih hstmts⟩
              have hword : whileHead? o s = some w := whileHead?_eq_some.mpr
                ⟨by simpa using hline, beq_iff_eq.mp hw, colon, hfind, hne, hhead⟩
              exact ⟨.loop hp hs hword, unbroken_head? hhead⟩
        · exact ih hstmts

theorem mem_while {number colon : Nat} {test : Test} (h : test.head? = some w) :
    ⟨o.start s.first, o.start (s.first + 1), .replace, w⟩
      ∈ whileEdits o options number s colon test := by
  unfold Test.head? at h
  split at h <;> cases h <;> exact List.mem_cons_self

/-- The guards of the statements behind the first one, which come last. -/
theorem exists_guardEditsFrom (checks : Nat) (s : Statement) (stmts : List Statement) :
    ∃ es checks', guardEditsFrom o options checks (s :: stmts) =
      es ++ guardEditsFrom o options checks' stmts := by
  rw [guardEditsFrom]
  split
  · exact ⟨[], _, rfl⟩
  · split
    · exact ⟨_, _, rfl⟩
    · split
      · split
        · exact ⟨[], _, rfl⟩
        · split
          · exact ⟨[], _, rfl⟩
          · exact ⟨_, _, rfl⟩
      · exact ⟨[], _, rfl⟩

/-- Every `while` that a loop gives up is replaced. -/
theorem mem_guards {checks : Nat} {stmts : List Statement} (hs : s ∈ stmts)
    (hw : whileHead? o s = some w) :
    ⟨o.start s.first, o.start (s.first + 1), .replace, w⟩ ∈ guardEditsFrom o options checks stmts := by
  induction stmts generalizing checks with
  | nil => cases hs
  | cons t stmts ih =>
    rcases List.mem_cons.mp hs with rfl | hs
    · obtain ⟨hline, hword, colon, hfind, hne, hhead⟩ := whileHead?_eq_some.mp hw
      have hfor : o.is s.first "for" = false := by simp [Outline.is, hword]
      have hwhile : o.is s.first "while" = true := by simp [Outline.is, hword]
      simp only [guardEditsFrom, hline, hfor, hwhile, hfind, hne, Bool.not_true, Bool.false_eq_true,
        if_false, if_true]
      exact List.mem_append_left _ (mem_while hhead)
    · obtain ⟨es, checks', heq⟩ := @exists_guardEditsFrom o options checks t stmts
      exact heq ▸ List.mem_append_right es (ih hs)

theorem shape_wrap (h : o.Placed) (hu : Unbroken options.debugFunction) {isFirst topLevel : Bool}
    {stmts : List Statement} : ∀ e ∈ wrapEditsFrom o options isFirst topLevel stmts,
      Shape o options e ∧ Unbroken e.text := by
  have hreport (s : Statement) (b : Bool) : ∀ e ∈ (if b then
      [.openAt (o.start s.first) (options.debugOpen (o.line s.first)),
        .closeAt (o.stop s.last) debugClose] else [] : List Edit),
      Shape o options e ∧ Unbroken e.text := by
    cases b with
    | false => exact nofun
    | true =>
      exact List.forall_mem_cons.mpr ⟨⟨.openAt h _ _, Instrument.Options.unbroken_debugOpen hu _⟩,
        List.forall_mem_singleton.mpr ⟨.closeAt h _ _, show Unbroken debugClose by decide⟩⟩
  induction stmts generalizing isFirst topLevel with
  | nil => exact nofun
  | cons s stmts ih => exact List.forall_mem_append.mpr ⟨hreport s _, ih⟩

/-- The edits of a program are insertions and heads, all on one line. -/
theorem shape_instrumentEdits (h : o.Placed) (hu : Unbroken options.debugFunction) :
    ∀ e ∈ instrumentEdits o options, Shape o options e ∧ Unbroken e.text := by
  intro e he
  simp only [instrumentEdits, List.mem_append] at he
  rcases he with (he | he) | he
  · obtain ⟨i, -, hi⟩ := List.mem_filterMap.mp he
    obtain ⟨hhead, rfl⟩ := printEdit_eq_some.mp hi
    exact ⟨.print hhead, Instrument.Options.unbroken_debugHead hu _ _⟩
  · split at he
    · next hp => exact shape_guards h hp (fun _ hs => hs) e he
    · cases he
  · split at he
    · exact shape_wrap h hu e he
    · cases he

theorem Shape.fits (h : o.Placed) (he : Shape o options e) : e.Fits o.source.length := by
  cases he with
  | inserts hs hk hw => exact ⟨fun _ => hs, fun hr => absurd hr hk, hw⟩
  | @print i hi =>
    have hlt := lt_size_of_isPrintHead hi
    have hstart := h.start_le_start (Nat.le_add_right i 1) hlt
    exact ⟨fun hr => absurd rfl hr, fun _ => Nat.lt_of_le_of_lt hstart (h.start_lt_stop hlt),
      h.stop_le _⟩
  | @loop s w _ hs hw =>
    have hlt := lt_size_of_whileHead? hw
    have hstop := h.stop_le_start (Nat.lt_succ_self s.first) hlt
    exact ⟨fun hr => absurd rfl hr,
      fun _ => Nat.lt_of_lt_of_le (h.start_lt_stop (Nat.lt_of_succ_lt hlt)) hstop, h.start_le _⟩

/-- Nothing else is done to the tokens of a call of `print`. -/
theorem Shape.beside_print (h : o.Placed) (hi : isPrintHead o i) (hf : Shape o options f)
    (hk : f.kind = .replace) :
    f = ⟨o.start i, o.stop (i + 1), .replace, options.debugHead (o.line i) (!o.is (i + 2) ")")⟩
      ∨ f.stop ≤ o.start i ∨ o.stop (i + 1) ≤ f.start := by
  obtain ⟨h0, h1⟩ := text_of_isPrintHead hi
  have hlt := lt_size_of_isPrintHead hi
  cases hf with
  | inserts hs hr hw => exact absurd hk hr
  | @print j hj =>
    obtain ⟨hj0, hj1⟩ := text_of_isPrintHead hj
    have hji : j + 1 ≠ i := fun he => by simp [he, h0] at hj1
    have hij : i + 1 ≠ j := fun he => by simp [he, hj0] at h1
    rcases Nat.lt_trichotomy i j with hlt' | rfl | hlt'
    · exact .inr (.inr (h.stop_le_start (by omega)
        (Nat.lt_of_succ_lt (lt_size_of_isPrintHead hj))))
    · exact .inl rfl
    · exact .inr (.inl (h.stop_le_start (by omega) (by omega)))
  | @loop s w _ hs hw =>
    have hword := (whileHead?_eq_some.mp hw).2.1
    have hsi : s.first ≠ i := fun he => by simp [he, h0] at hword
    have his : i + 1 ≠ s.first := fun he => by simp [← he, h1] at hword
    rcases Nat.lt_or_gt_of_ne hsi with hlt' | hlt'
    · exact .inr (.inl (h.start_le_start hlt' (by omega)))
    · exact .inr (.inr (h.stop_le_start (by omega) (Nat.lt_of_succ_lt (lt_size_of_whileHead? hw))))

/-- Nothing else is done to the `while` of a loop. -/
theorem Shape.beside_while (h : o.Placed) (hs : s ∈ statements o) (hw : whileHead? o s = some w)
    (hf : Shape o options f) (hk : f.kind = .replace) :
    f = ⟨o.start s.first, o.start (s.first + 1), .replace, w⟩
      ∨ f.stop ≤ o.start s.first ∨ o.start (s.first + 1) ≤ f.start := by
  have hlt := lt_size_of_whileHead? hw
  cases hf with
  | inserts hs hr hw => exact absurd hk hr
  | @print j hj =>
    obtain ⟨h0, h1⟩ := text_of_isPrintHead hj
    have hword := (whileHead?_eq_some.mp hw).2.1
    have hsj : s.first ≠ j := fun he => by simp [he, h0] at hword
    have hjs : j + 1 ≠ s.first := fun he => by simp [← he, h1] at hword
    rcases Nat.lt_or_gt_of_ne hsj with hlt' | hlt'
    · exact .inr (.inr (h.start_le_start hlt' (Nat.lt_of_succ_lt (lt_size_of_isPrintHead hj))))
    · exact .inr (.inl (h.stop_le_start (by omega) (by omega)))
  | @loop t v _ ht hv =>
    rcases trichotomy_statements hs ht with rfl | hlt' | hlt'
    · rw [hw] at hv
      exact .inl (by rw [Option.some.inj hv])
    · exact .inr (.inr (h.start_le_start hlt' (Nat.lt_of_succ_lt (lt_size_of_whileHead? hv))))
    · exact .inr (.inl (h.start_le_start hlt' (by omega)))

/-- The heads that are rewritten under the given options. -/
def heads (o : Outline) (options : Options) : List (Nat × Nat) :=
  printHeads o ++ if options.loopProtection then whileHeads o else []

/-- Every call of `print` is rewritten. -/
theorem print_mem_kept (h : o.Placed) (hu : Unbroken options.debugFunction) (hi : isPrintHead o i) :
    ⟨o.start i, o.stop (i + 1), .replace, options.debugHead (o.line i) (!o.is (i + 2) ")")⟩
      ∈ Edit.kept (instrumentEdits o options) o.source := by
  have hshape := shape_instrumentEdits h hu
  have hrange := List.mem_range.mpr (Nat.lt_of_succ_lt (lt_size_of_isPrintHead hi))
  have hedit : _ ∈ printEdits o options :=
    List.mem_filterMap.mpr ⟨i, hrange, printEdit_eq_some.mpr ⟨hi, rfl⟩⟩
  exact Edit.mem_kept (fun f hf => (hshape f hf).1.fits h)
    (List.mem_append_left _ (List.mem_append_left _ hedit))
    fun f hf hk => (hshape f hf).1.beside_print h hi hk

/-- Every `while` that does not stay is rewritten. -/
theorem loop_mem_kept (h : o.Placed) (hu : Unbroken options.debugFunction)
    (hp : options.loopProtection) (hs : s ∈ statements o) (hw : whileHead? o s = some w) :
    ⟨o.start s.first, o.start (s.first + 1), .replace, w⟩
      ∈ Edit.kept (instrumentEdits o options) o.source := by
  have hshape := shape_instrumentEdits h hu
  have hedit : ⟨o.start s.first, o.start (s.first + 1), .replace, w⟩ ∈ instrumentEdits o options := by
    refine List.mem_append_left _ (List.mem_append_right _ ?_)
    rw [if_pos hp]
    exact mem_guards hs hw
  exact Edit.mem_kept (fun f hf => (hshape f hf).1.fits h) hedit
    fun f hf hk => (hshape f hf).1.beside_while h hs hw hk

theorem rewrites_instrumentEdits (h : o.Placed) (hu : Unbroken options.debugFunction) :
    o.Rewrites (instrumentEdits o options) (heads o options) := by
  have hshape := shape_instrumentEdits h hu
  have hprint {i : Nat} (hi : isPrintHead o i) (s : String) :
      o.Replaces ⟨o.start i, o.stop (i + 1), .replace, s⟩ i (i + 1) := by
    have htext := (text_of_isPrintHead hi).2
    exact h.replaces (Nat.le_add_right i 1) (by rw [htext]; decide) (by rw [htext]; decide) rfl rfl
  have hloop {s : Statement} {w : String} (hw : whileHead? o s = some w) :
      o.Replaces ⟨o.start s.first, o.start (s.first + 1), .replace, w⟩ s.first (s.first + 1) :=
    h.replaces_upTo (Nat.le_succ _) (lt_size_of_whileHead? hw) rfl rfl
  refine ⟨fun e he => (hshape e he).2, fun e he hbreak => ?_, fun head hhead => ?_⟩
  · cases (hshape e he).1 with
    | inserts hs hk hw =>
      rw [hs, Text.slice_self] at hbreak
      cases hbreak
    | @print i hi =>
      have hrange := List.mem_range.mpr (Nat.lt_of_succ_lt (lt_size_of_isPrintHead hi))
      exact ⟨(i, i + 1), List.mem_append_left _
        (List.mem_map.mpr ⟨i, List.mem_filter.mpr ⟨hrange, hi⟩, rfl⟩), hprint hi _⟩
    | @loop s w hp hs hw =>
      refine ⟨(s.first, s.first + 1), List.mem_append_right _ ?_, hloop hw⟩
      rw [if_pos hp]
      exact List.mem_map.mpr ⟨s, List.mem_filter.mpr ⟨hs, by rw [hw]; rfl⟩, rfl⟩
  · rcases List.mem_append.mp hhead with hhead | hhead
    · obtain ⟨i, hi, rfl⟩ := List.mem_map.mp hhead
      exact ⟨_, print_mem_kept h hu (List.mem_filter.mp hi).2, hprint (List.mem_filter.mp hi).2 _⟩
    · split at hhead
      · next hp =>
        obtain ⟨s, hs, rfl⟩ := List.mem_map.mp hhead
        obtain ⟨hs, hsome⟩ := List.mem_filter.mp hs
        obtain ⟨w, hw⟩ := Option.isSome_iff_exists.mp hsome
        exact ⟨_, loop_mem_kept h hu hp hs hw, hloop hw⟩
      · cases hhead

end Python

end Scratchpad
