import Scratchpad.Proofs.Token.Rewriting
import Scratchpad.Script.Report

/-!
The heads that instrumentation of a script rewrites are those of console calls: `console`, `.`, the
method and the opening bracket. Everything else is an insertion, or a semicolon that is replaced.
-/
namespace Scratchpad

open Instrument (Options debugClose)
open Text (Edit)

namespace Script

/-- The word, the method and the opening bracket of a console call. -/
def isConsoleHead (o : Outline) (i : Nat) : Bool :=
  o.is i "console" && o.is (i + 1) "." && o.isAny (i + 2) ["log", "info", "debug"]
    && o.is (i + 3) "(" && !(0 < i && o.isAny (i - 1) [".", "?."])

def consoleHeads (o : Outline) : List (Nat × Nat) :=
  ((List.range o.size).filter (isConsoleHead o)).map fun i => (i, i + 3)

/-- What an edit of a script does to the tokens. -/
inductive Shape (o : Outline) (options : Options) : Edit → Prop where
  | inserts {e : Edit} (hs : e.stop = e.start) (hk : e.kind ≠ .replace)
      (hw : e.stop ≤ o.source.length) : Shape o options e
  | console {i : Nat} (h : isConsoleHead o i) : Shape o options ⟨o.start i, o.stop (i + 3),
      .replace, options.debugHead (o.line i) (!o.is (i + 4) ")")⟩
  | semicolon {k : Nat} (h : o.text k = ";") (s : String) :
      Shape o options ⟨o.start k, o.stop k, .replace, s⟩

variable {o : Outline} {options : Options} {e f : Edit} {l : Loop} {i k : Nat}

theorem consoleEdit_eq_some : consoleEdit o options i = some e ↔ isConsoleHead o i ∧
    e = ⟨o.start i, o.stop (i + 3), .replace,
      options.debugHead (o.line i) (!o.is (i + 4) ")")⟩ := by
  rw [consoleEdit, ← isConsoleHead]
  split
  · next h => simp [h, eq_comm]
  · next h => simp [h]

theorem Shape.openAt (h : o.Placed) (i : Nat) (s : String) :
    Shape o options (.openAt (o.start i) s) := .inserts rfl nofun (h.start_le i)

theorem Shape.openBehind (h : o.Placed) (i : Nat) (s : String) :
    Shape o options (.openAt (o.stop i) s) := .inserts rfl nofun (h.stop_le i)

theorem Shape.closeAt (h : o.Placed) (i : Nat) (s : String) :
    Shape o options (.closeAt (o.stop i) s) := .inserts rfl nofun (h.stop_le i)

theorem unbroken_guardText (options : Options) (n : Nat) : Unbroken (guardText options n) := by
  have hpair (a b : String) (m k : Nat) (ha : Unbroken a) (hb : Unbroken b) :
      Unbroken (a ++ toString m ++ b ++ toString k) :=
    unbroken_append.mpr ⟨unbroken_append.mpr ⟨unbroken_append.mpr ⟨ha, unbroken_nat m⟩, hb⟩,
      unbroken_nat k⟩
  unfold guardText
  refine unbroken_append.mpr ⟨unbroken_append.mpr ⟨unbroken_append.mpr
    ⟨unbroken_append.mpr ⟨?_, ?_⟩, ?_⟩, ?_⟩, ?_⟩
  · exact unbroken_append.mpr ⟨hpair _ _ _ _ (by decide) (by decide), by decide⟩
  · exact unbroken_append.mpr ⟨hpair _ _ _ _ (by decide) (by decide), by decide⟩
  · decide
  · decide
  · decide

theorem text_of_bodyOf {first last : Nat} (h : bodyOf o first last = .empty k) :
    o.text k = ";" := by
  unfold bodyOf at h
  split at h
  · cases h
  · next ht =>
    cases h
    exact ht
  · cases h

theorem text_of_headedLoop (h : headedLoop o i = some l) (hb : l.body = .empty k) :
    o.text k = ";" := by
  simp only [headedLoop, Option.bind_eq_bind, Option.bind_eq_some_iff, Option.pure_def,
    Option.some.injEq] at h
  obtain ⟨head, -, last, -, rfl⟩ := h
  exact text_of_bodyOf hb

theorem text_of_doLoop {w : Nat} (h : doLoop o i = some (l, w)) (hb : l.body = .empty k) :
    o.text k = ";" := by
  simp only [doLoop, Option.bind_eq_bind, Option.bind_eq_some_iff, Option.pure_def,
    Option.some.injEq, Prod.mk.injEq] at h
  obtain ⟨bodyEnd, -, tail, -, rfl, -⟩ := h
  exact text_of_bodyOf hb

/-- A loop that is listed is the one at a word of a loop. -/
theorem exists_of_mem_loopsFrom {trailing is : List Nat} (h : l ∈ loopsFrom o trailing is) :
    ∃ k ∈ is, isLoopWord o k ∧ (headedLoop o k = some l ∨ ∃ w, doLoop o k = some (l, w)) := by
  induction is generalizing trailing with
  | nil => cases h
  | cons i is ih =>
    have hrest {tr : List Nat} (h : l ∈ loopsFrom o tr is) : ∃ k ∈ i :: is,
        isLoopWord o k ∧ (headedLoop o k = some l ∨ ∃ w, doLoop o k = some (l, w)) := by
      obtain ⟨k, hk, hl⟩ := ih h
      exact ⟨k, List.mem_cons_of_mem i hk, hl⟩
    rw [loopsFrom] at h
    split at h
    · exact hrest h
    · next hword =>
      have hw : isLoopWord o i := by
        simp only [Bool.or_eq_true, Bool.not_eq_true', not_or, Bool.not_eq_false] at hword
        exact hword.2
      split at h
      · split at h
        · next w hd =>
          rcases List.mem_cons.mp h with rfl | h
          · exact ⟨i, List.mem_cons_self, hw, .inr ⟨w, hd⟩⟩
          · exact hrest h
        · exact hrest h
      · rcases List.mem_append.mp h with h | h
        · exact ⟨i, List.mem_cons_self, hw, .inl (Option.mem_toList.mp h)⟩
        · exact hrest h

/-- The body of a loop that is empty is a semicolon. -/
theorem text_of_mem_loopsFrom {trailing is : List Nat} (h : l ∈ loopsFrom o trailing is)
    (hb : l.body = .empty k) : o.text k = ";" := by
  obtain ⟨_, _, _, hl | ⟨w, hl⟩⟩ := exists_of_mem_loopsFrom h
  · exact text_of_headedLoop hl hb
  · exact text_of_doLoop hl hb

theorem shape_loop (h : o.Placed) (hl : ∀ k, l.body = .empty k → o.text k = ";") (n : Nat) :
    ∀ e ∈ l.edits o options n, Shape o options e ∧ Unbroken e.text := by
  have hguard := unbroken_guardText options n
  have hclose (k : Nat) : Shape o options (.closeAt (o.stop k) " \x7d") ∧ Unbroken " \x7d" :=
    ⟨.closeAt h k _, by decide⟩
  have hcount : Unbroken s!"\x7b let __lp{n} = 0; " :=
    unbroken_append.mpr ⟨unbroken_append.mpr ⟨by decide, unbroken_nat n⟩, by decide⟩
  simp only [Loop.edits, List.cons_append, List.forall_mem_cons, List.forall_mem_append]
  refine ⟨⟨.openAt h _ _, hcount⟩, ?_, hclose l.last, nofun⟩
  cases hb : l.body with
  | block opener =>
    refine List.forall_mem_singleton.mpr ⟨.openBehind h _ _, unbroken_append.mpr ⟨by decide, hguard⟩⟩
  | empty semicolon =>
    refine List.forall_mem_singleton.mpr ⟨.semicolon (hl _ hb) _, ?_⟩
    exact unbroken_append.mpr ⟨unbroken_append.mpr ⟨by decide, hguard⟩, by decide⟩
  | single first last =>
    refine List.forall_mem_cons.mpr ⟨⟨.openAt h _ _, ?_⟩, List.forall_mem_singleton.mpr (hclose last)⟩
    exact unbroken_append.mpr ⟨unbroken_append.mpr ⟨by decide, hguard⟩, by decide⟩

theorem shape_expression (h : o.Placed) (s : Nat × Nat) : ∀ e ∈ expressionEdits o options s,
    Shape o options e ∧ (Unbroken options.debugFunction → Unbroken e.text) := by
  obtain ⟨first, stop⟩ := s
  dsimp only [expressionEdits]
  generalize (if o.is stop ";" then stop - 1 else stop) = last
  split
  · exact nofun
  · exact List.forall_mem_cons.mpr
      ⟨⟨.openAt h _ _, fun hu => Instrument.Options.unbroken_debugOpen hu _⟩,
        List.forall_mem_singleton.mpr ⟨.closeAt h _ _, fun _ => show Unbroken debugClose by decide⟩⟩

/-- The edits of a script are insertions, console heads and empty loop bodies, all on one line if
the name of the debug function is. -/
theorem shape_instrumentEdits (h : o.Placed) : ∀ e ∈ instrumentEdits o options,
    Shape o options e ∧ (Unbroken options.debugFunction → Unbroken e.text) := by
  have hconsole : ∀ e ∈ consoleEdits o options,
      Shape o options e ∧ (Unbroken options.debugFunction → Unbroken e.text) := by
    intro e he
    obtain ⟨i, -, hi⟩ := List.mem_filterMap.mp he
    obtain ⟨hhead, rfl⟩ := consoleEdit_eq_some.mp hi
    exact ⟨.console hhead, fun hu => Instrument.Options.unbroken_debugHead hu _ _⟩
  have hguard : ∀ e ∈ guardEdits o options,
      Shape o options e ∧ (Unbroken options.debugFunction → Unbroken e.text) := by
    intro e he
    obtain ⟨⟨l, n⟩, hl, he⟩ := List.mem_flatMap.mp he
    have hmem : l ∈ loopsFrom o [] (List.range o.size) := List.fst_mem_of_mem_zipIdx hl
    obtain ⟨hshape, hline⟩ := shape_loop h (fun k hk => text_of_mem_loopsFrom hmem hk) _ e he
    exact ⟨hshape, fun _ => hline⟩
  have hwrap : ∀ e ∈ wrapEdits o options,
      Shape o options e ∧ (Unbroken options.debugFunction → Unbroken e.text) := by
    intro e he
    obtain ⟨s, -, he⟩ := List.mem_flatMap.mp he
    exact shape_expression h s e he
  intro e he
  simp only [instrumentEdits, List.mem_append] at he
  rcases he with (he | he) | he
  · exact hconsole e he
  · split at he
    · exact hguard e he
    · cases he
  · split at he
    · exact hwrap e he
    · cases he

theorem text_of_isConsoleHead (h : isConsoleHead o i) : o.text i = "console" ∧
    o.text (i + 1) = "." ∧ o.text (i + 2) ∈ ["log", "info", "debug"] ∧ o.text (i + 3) = "(" := by
  simp only [isConsoleHead, Bool.and_eq_true, Outline.is, Outline.isAny, beq_iff_eq,
    List.contains_iff_mem] at h
  exact ⟨h.1.1.1.1, h.1.1.1.2, h.1.1.2, h.1.2⟩

theorem lt_size_of_isConsoleHead (h : isConsoleHead o i) : i + 3 < o.size :=
  Outline.lt_size (by rw [(text_of_isConsoleHead h).2.2.2]; decide)

theorem lt_size_of_text (h : o.text k = ";") : k < o.size :=
  Outline.lt_size (by rw [h]; decide)

theorem Shape.fits (h : o.Placed) (he : Shape o options e) : e.Fits o.source.length := by
  cases he with
  | inserts hs hk hw => exact ⟨fun _ => hs, fun hr => absurd hr hk, hw⟩
  | @console i hi =>
    have hlt := lt_size_of_isConsoleHead hi
    have hstart := h.start_le_start (Nat.le_add_right i 3) hlt
    exact ⟨fun hr => absurd rfl hr, fun _ => Nat.lt_of_le_of_lt hstart (h.start_lt_stop hlt),
      h.stop_le _⟩
  | @semicolon k hk s =>
    exact ⟨fun hr => absurd rfl hr, fun _ => h.start_lt_stop (lt_size_of_text hk), h.stop_le k⟩

/-- A console head starts nowhere within another one, and there is no semicolon in it. -/
theorem text_within_head (h : isConsoleHead o i) (hik : i < k) (hk : k ≤ i + 3) :
    o.text k ≠ "console" ∧ o.text k ≠ ";" := by
  obtain ⟨-, h1, h2, h3⟩ := text_of_isConsoleHead h
  obtain rfl | rfl | rfl : k = i + 1 ∨ k = i + 2 ∨ k = i + 3 := by omega
  · simp [h1]
  · simp only [List.mem_cons, List.not_mem_nil, or_false] at h2
    rcases h2 with h2 | h2 | h2 <;> simp [h2]
  · simp [h3]

/-- Nothing else is done to the tokens of a console head. -/
theorem Shape.beside (h : o.Placed) (hi : isConsoleHead o i) (hf : Shape o options f)
    (hk : f.kind = .replace) :
    f = ⟨o.start i, o.stop (i + 3), .replace, options.debugHead (o.line i) (!o.is (i + 4) ")")⟩
      ∨ f.stop ≤ o.start i ∨ o.stop (i + 3) ≤ f.start := by
  have hlt := lt_size_of_isConsoleHead hi
  cases hf with
  | inserts hs hr hw => exact absurd hk hr
  | @console j hj =>
    rcases Nat.lt_trichotomy i j with hij | rfl | hji
    · have hbehind : i + 3 < j := Nat.lt_of_not_le fun hle =>
        (text_within_head hi hij hle).1 (text_of_isConsoleHead hj).1
      exact .inr (.inr (h.stop_le_start hbehind (by have := lt_size_of_isConsoleHead hj; omega)))
    · exact .inl rfl
    · have hbehind : j + 3 < i := Nat.lt_of_not_le fun hle =>
        (text_within_head hj hji hle).1 (text_of_isConsoleHead hi).1
      exact .inr (.inl (h.stop_le_start hbehind (by omega)))
  | @semicolon k ht s =>
    have hne : k ≠ i := fun he => by
      rw [he, (text_of_isConsoleHead hi).1] at ht
      exact absurd ht (by decide)
    by_cases hki : k < i
    · exact .inr (.inl (h.stop_le_start hki (by omega)))
    · have hbehind : i + 3 < k := Nat.lt_of_not_le fun hle =>
        (text_within_head hi (by omega) hle).2 ht
      exact .inr (.inr (h.stop_le_start hbehind (lt_size_of_text ht)))

theorem rewrites_instrumentEdits (h : o.Placed) (hu : Unbroken options.debugFunction) :
    o.Rewrites (instrumentEdits o options) (consoleHeads o) := by
  have hshape := @shape_instrumentEdits o options h
  have hreplaces {i : Nat} (hi : isConsoleHead o i) (s : String) :
      o.Replaces ⟨o.start i, o.stop (i + 3), .replace, s⟩ i (i + 3) := by
    have htext := (text_of_isConsoleHead hi).2.2.2
    exact h.replaces (Nat.le_add_right i 3) (by rw [htext]; decide) (by rw [htext]; decide) rfl rfl
  have hmem {i : Nat} : (i, i + 3) ∈ consoleHeads o ↔ isConsoleHead o i := by
    simp only [consoleHeads, List.mem_map, List.mem_filter, List.mem_range, Prod.mk.injEq]
    constructor
    · rintro ⟨k, ⟨-, hk⟩, rfl, -⟩
      exact hk
    · intro hi
      exact ⟨i, ⟨Nat.lt_of_le_of_lt (Nat.le_add_right i 3) (lt_size_of_isConsoleHead hi), hi⟩,
        rfl, rfl⟩
  refine ⟨fun e he => (hshape e he).2 hu, fun e he hbreak => ?_, fun head hhead => ?_⟩
  · cases (hshape e he).1 with
    | inserts hs hk hw =>
      rw [hs, Text.slice_self] at hbreak
      cases hbreak
    | @console i hi => exact ⟨(i, i + 3), hmem.mpr hi, hreplaces hi _⟩
    | @semicolon k hk s =>
      rw [h.slice_eq (lt_size_of_text hk), hk] at hbreak
      exact absurd hbreak (by decide)
  · obtain ⟨i, hi, rfl⟩ := List.mem_map.mp hhead
    obtain ⟨hrange, hi⟩ := List.mem_filter.mp hi
    have hedit : _ ∈ consoleEdits o options :=
      List.mem_filterMap.mpr ⟨i, hrange, consoleEdit_eq_some.mpr ⟨hi, rfl⟩⟩
    exact ⟨_, Edit.mem_kept (fun f hf => (hshape f hf).1.fits h)
      (List.mem_append_left _ (List.mem_append_left _ hedit))
      fun f hf hk => (hshape f hf).1.beside h hi hk, hreplaces hi _⟩

end Script

end Scratchpad
