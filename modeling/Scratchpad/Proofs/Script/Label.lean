import Scratchpad.Proofs.Script.Guarded

/-!
Labels of loops. A loop goes into a block of its own together with the label in front of it, if that
is one plain name at which a statement starts. From any other label the loop is parted: the block
opens, and its counter is declared, between the two.
-/
namespace Scratchpad.Script

open Instrument (Options)
open Outline (Throughout)
open Text (Edit)

/-- Token `k` stands behind labels, the first of which is token `a`. -/
inductive Labelled (o : Outline) (k : Nat) : Nat → Prop where
  | last {a} (hn : o.isIdent a) (hf : IsFree o a) (hc : o.is (a + 1) ":") (hk : k = a + 2) :
    Labelled o k a
  | more {a} (hn : o.isIdent a) (hf : IsFree o a) (hc : o.is (a + 1) ":")
      (h : Labelled o k (a + 2)) : Labelled o k a

/-- Opens a block that declares a counter. -/
def Declares (e : Edit) : Prop := e.kind = .opens ∧ ∃ n, e.text = counterText n

variable {o : Outline} {options : Options} {a j k n : Nat} {e : Edit} {l : Loop}

theorem Labelled.le (h : Labelled o k a) : a + 2 ≤ k := by
  induction h with
  | last _ _ _ hk => exact Nat.le_of_eq hk.symm
  | more _ _ _ _ ih => omega

/-- Labels are no words of loops. -/
theorem Labelled.free (h : Labelled o k a) : Throughout (IsFree o) a k := by
  have hlabel {a : Nat} (hf : IsFree o a) (hc : o.is (a + 1) ":") :
      Throughout (IsFree o) a (a + 2) :=
    (Throughout.token hf).append (.token (not_isLoopWord hc (by decide)))
  induction h with
  | last _ hf hc hk => exact hk ▸ hlabel hf hc
  | more _ hf hc _ ih => exact (hlabel hf hc).append ih

/-- A loop is taken along with the first of its labels if that is the only one and is taken for
one. -/
theorem Labelled.labelStart_eq (h : Labelled o k a) :
    labelStart o k = a ↔ a + 2 = k ∧ o.isName a ∧ o.startsStatement a := by
  have hle := h.le
  constructor
  · intro heq
    rcases labelStart_cases o k with hk | ⟨hk, -, -, hname, hstart⟩
    · omega
    · obtain rfl : k - 2 = a := hk.symm.trans heq
      exact ⟨by omega, hname, hstart⟩
  · rintro ⟨rfl, hname, hstart⟩
    have hcolon : o.is (a + 1) ":" := by
      cases h with
      | last _ _ hc _ | more _ _ hc _ => exact hc
    simp only [Outline.isName, Bool.and_eq_true] at hname
    simp [labelStart, hcolon, hname, hstart]

/-- A loop that starts between the first label and token `k` is the one at `k`. -/
theorem Labelled.eq_of_start (h : Labelled o k a) (hk : isLoopWord o k) (hj : isLoopWord o j)
    (ha : a < labelStart o j) (hle : labelStart o j ≤ k) : j = k := by
  have hfree := h.free
  have hnot (hlt : j < k) (haj : a ≤ j) : False := by
    have hf : isLoopWord o j = false := hfree j haj hlt
    rw [hj] at hf
    cases hf
  have hjle := labelStart_le o j
  rcases labelStart_cases o j with heq | ⟨heq, h2, hcolon, hname, -⟩
  · exact Decidable.byContradiction fun hne => hnot (by omega) (by omega)
  · rcases Nat.lt_trichotomy j k with hlt | heq' | hlt
    · exact (hnot hlt (by omega)).elim
    · exact heq'
    · obtain hjk | hjk : j - 1 = k ∨ j - 2 = k := by omega
      · have hf : IsFree o k := not_isLoopWord (hjk ▸ hcolon) (by decide)
        rw [IsFree, hk] at hf
        cases hf
      · have hf : IsFree o k := free_of_isName (hjk ▸ hname)
        rw [IsFree, hk] at hf
        cases hf

theorem start_of_headedLoop (h : headedLoop o k = some l) : l.start = labelStart o k := by
  simp only [headedLoop, Option.bind_eq_bind, Option.bind_eq_some_iff, Option.pure_def,
    Option.some.injEq] at h
  obtain ⟨head, -, last, -, rfl⟩ := h
  rfl

theorem start_of_doLoop {w : Nat} (h : doLoop o k = some (l, w)) : l.start = labelStart o k := by
  simp only [doLoop, Option.bind_eq_bind, Option.bind_eq_some_iff, Option.pure_def,
    Option.some.injEq, Prod.mk.injEq] at h
  obtain ⟨bodyEnd, -, tail, -, rfl, -⟩ := h
  rfl

theorem start_of_mem_loops (h : l ∈ loops o) :
    ∃ k < o.size, isLoopWord o k ∧ l.start = labelStart o k := by
  obtain ⟨k, hk, hw, hl | ⟨w, hl⟩⟩ := exists_of_mem_loopsFrom h
  · exact ⟨k, List.mem_range.mp hk, hw, start_of_headedLoop hl⟩
  · exact ⟨k, List.mem_range.mp hk, hw, start_of_doLoop hl⟩

/-! ### Declarations of counters -/

theorem toList_counterText (n : Nat) : ∃ cs, (counterText n).toList = '{' :: ' ' :: 'l' :: cs :=
  ⟨_, by simp only [counterText, String.toList_append]; rfl⟩

theorem exists_toList_append {a b : String} {c : Char} (h : ∃ cs, a.toList = c :: cs) :
    ∃ cs, (a ++ b).toList = c :: cs := by
  obtain ⟨cs, h⟩ := h
  exact ⟨cs ++ b.toList, by rw [String.toList_append, h, List.cons_append]⟩

theorem toList_guardText (options : Options) (n : Nat) :
    ∃ cs, (guardText options n).toList = 'i' :: cs := by
  -- down to the first of the nine pieces
  iterate 8 refine exists_toList_append ?_
  exact ⟨_, rfl⟩

/-- No guard declares a counter. -/
theorem LoopBody.not_declares_entry (body : LoopBody) : ¬Declares (body.entry o options n) := by
  rintro ⟨hkind, m, htext⟩
  obtain ⟨cs, hcount⟩ := toList_counterText m
  have hlist := (congrArg String.toList htext).trans hcount
  cases body with
  | block opener =>
    simp only [LoopBody.entry, Edit.openAt, String.toList_append] at hlist
    exact absurd (List.cons.inj hlist).1 (by decide)
  | empty semicolon => cases hkind
  | single first last =>
    obtain ⟨cs', hguard⟩ := toList_guardText options n
    simp only [LoopBody.entry, Edit.openAt, String.toList_append] at hlist
    rw [show (toString (guardText options n)).toList = 'i' :: cs' from hguard] at hlist
    exact absurd (List.cons.inj (List.cons.inj (List.cons.inj hlist).2).2).1 (by decide)

/-- No call of the debug function declares a counter. -/
theorem not_declares_debugOpen (at_ line : Nat) :
    ¬Declares (.openAt at_ (options.debugOpen line)) := by
  rintro ⟨-, n, htext⟩
  have hlast := congrArg (fun s : String => s.toList.getLast?) htext
  have hopen : (toString ", (").toList.getLast? = some '(' := rfl
  have hcount : (toString " = 0; ").toList.getLast? = some ' ' := rfl
  simp [Edit.openAt, Options.debugOpen, counterText, hopen, hcount] at hlast

/-- Counters are declared where loops start. -/
theorem declares_of_mem (he : e ∈ instrumentEdits o options) (hd : Declares e) :
    options.loopProtection ∧ ∃ l ∈ loops o, e.start = o.start l.start := by
  simp only [instrumentEdits, List.mem_append] at he
  rcases he with (he | he) | he
  · obtain ⟨m, -, -, -, hkind⟩ := mem_consoleEdits he
    rw [hd.1] at hkind
    cases hkind
  · split at he
    · next hloops =>
      obtain ⟨⟨l, n⟩, hl, he⟩ := List.mem_flatMap.mp he
      refine ⟨hloops, l, List.fst_mem_of_mem_zipIdx hl, ?_⟩
      rcases mem_edits he with rfl | rfl | hclose
      · rfl
      · exact absurd hd (LoopBody.not_declares_entry l.body)
      · rw [hclose] at hd
        cases hd.1
    · cases he
  · split at he
    · obtain ⟨⟨first, stop⟩, -, he⟩ := List.mem_flatMap.mp he
      unfold expressionEdits at he
      dsimp only at he
      generalize (if o.is stop ";" then stop - 1 else stop) = last at he
      split at he
      · cases he
      · simp only [List.mem_cons, List.not_mem_nil, or_false] at he
        rcases he with rfl | rfl
        · exact absurd hd (not_declares_debugOpen _ _)
        · cases hd.1
    · cases he

/-- What is inserted at a seam is carried out. -/
theorem Seam.mem_kept {source : List Char} (hp : o.Placed) (hsource : o.source = source)
    (h : Seam o j) (hj : j < o.size) (he : e ∈ instrumentEdits o options) (hk : e.kind ≠ .replace)
    (hs : e.start = o.start j) : e ∈ Edit.kept (instrumentEdits o options) source := by
  subst hsource
  have hshape := @shape_instrumentEdits o options hp
  have hfits : e.stop = e.start := ((hshape e he).1.fits hp).insertion hk
  refine Edit.mem_kept (fun f hf => (hshape f hf).1.fits hp) he fun f hf hkind => .inr ?_
  rw [hfits, hs]
  cases (hshape f hf).1 with
  | inserts _ hinsert => exact absurd hkind hinsert
  | @console m hm =>
    have hm3 := lt_size_of_isConsoleHead hm
    rcases h.heads m hm with hlt | hle
    · exact .inl (hp.stop_le_start hlt hj)
    · exact .inr (hp.start_le_start hle (by omega))
  | @semicolon q hq =>
    rcases Nat.lt_or_ge q j with hlt | hle
    · exact .inl (hp.stop_le_start hlt hj)
    · exact .inr (hp.start_le_start hle (lt_size_of_text hq))

/-- The counter of a loop is declared where the loop or its label starts. -/
theorem exists_declares {source : List Char} (hs : o.Scripted) (hp : o.Placed)
    (hsource : o.source = source) (hloops : options.loopProtection) (hk : isLoopWord o k)
    (hl : l ∈ loops o) (hlk : l.start = labelStart o k) :
    ∃ e ∈ Edit.kept (instrumentEdits o options) source,
      Declares e ∧ e.start = o.start (labelStart o k) := by
  obtain ⟨n, hn⟩ := List.mem_iff_getElem?.mp hl
  have hedit : .openAt (o.start l.start) (counterText (n + 1)) ∈ l.edits o options (n + 1) := by
    rw [Loop.edits_eq]
    exact List.mem_cons_self
  have he : .openAt (o.start l.start) (counterText (n + 1)) ∈ instrumentEdits o options := by
    refine List.mem_append_left _ (List.mem_append_right _ ?_)
    rw [if_pos hloops]
    exact List.mem_flatMap.mpr ⟨(l, n), List.mk_mem_zipIdx_iff_getElem?.mpr hn, hedit⟩
  have hsize := lt_size_of_isLoopWord hk
  have hle := labelStart_le o k
  exact ⟨_, (Seam.at_loop hs hk).mem_kept hp hsource (by omega) he (fun hr => by cases hr)
    (congrArg o.start hlk), ⟨rfl, n + 1, rfl⟩, congrArg o.start hlk⟩

/-- In a script without faults the counter of a loop is declared between it and the labels in front
of it, unless the loop is not guarded or has one label only, a plain name at which a statement
starts. -/
theorem counter_parts_labels_iff {source : List Char}
    (hsource : (tokenize .script source).firstFault = none) :
    let o := (tokenize .script source).outline
    ∀ a k, Labelled o k a → isLoopWord o k →
      ((∃ e ∈ Edit.kept (instrumentEdits o options) source, Declares e ∧ o.start a < e.start ∧
          e.start ≤ o.start k) ↔
        (options.loopProtection ∧ ∃ l ∈ loops o, l.start = labelStart o k) ∧
          ¬(a + 2 = k ∧ o.isName a ∧ o.startsStatement a)) := by
  intro o a k h hk
  have hs : o.Scripted := Outline.scripted_tokenize (Option.or_eq_none_iff.mp hsource).2
  have hp : o.Placed := placed_tokenize .script source
  have hsize : k < o.size := lt_size_of_isLoopWord hk
  have hle := h.le
  rw [← h.labelStart_eq]
  constructor
  · rintro ⟨e, he, hd, hlo, hhi⟩
    obtain ⟨hloops, l, hl, hstart⟩ := declares_of_mem (Edit.mem_of_mem_kept he) hd
    obtain ⟨j, hj, hw, hlj⟩ := start_of_mem_loops hl
    have hjle := labelStart_le o j
    rw [hstart, hlj] at hlo hhi
    have ha : a < labelStart o j := Nat.lt_of_not_le fun hle => by
      have := hp.start_le_start hle (by omega)
      omega
    have hjk : labelStart o j ≤ k := Nat.le_of_not_lt fun hlt => by
      have := hp.stop_le_start hlt (by omega)
      have := hp.start_lt_stop hsize
      omega
    obtain rfl := h.eq_of_start hk hw ha hjk
    exact ⟨⟨hloops, l, hl, hlj⟩, by omega⟩
  · rintro ⟨⟨hloops, l, hl, hlk⟩, hne⟩
    have hlabel := labelStart_le o k
    have ha : a < labelStart o k := by
      rcases labelStart_cases o k with heq | ⟨heq, -⟩ <;> omega
    obtain ⟨e, he, hd, hstart⟩ := exists_declares hs hp rfl hloops hk hl hlk
    have hpos := hp.start_lt_stop (show a < o.size by omega)
    have hbehind := hp.stop_le_start ha (show labelStart o k < o.size by omega)
    have hfront := hp.start_le_start hlabel hsize
    exact ⟨e, he, hd, by omega, by omega⟩

/-- Two labels are parted from their loop. -/
theorem counter_parts_labels_of_two :
    let source := "a: b: for (;;) c".toList
    let o := (tokenize .script source).outline
    (tokenize .script source).firstFault = none ∧ Labelled o 4 0 ∧ isLoopWord o 4 ∧
      ∃ e ∈ Edit.kept (instrumentEdits o {}) source, Declares e ∧ o.start 0 < e.start ∧
        e.start ≤ o.start 4 := by
  intro source o
  have hsource : (tokenize .script source).firstFault = none := by decide +kernel
  have hlabels : Labelled o 4 0 :=
    .more (by decide +kernel) (show isLoopWord o 0 = false by decide +kernel) (by decide +kernel)
      (.last (by decide +kernel) (show isLoopWord o 2 = false by decide +kernel)
        (by decide +kernel) rfl)
  have hword : isLoopWord o 4 := by decide +kernel
  refine ⟨hsource, hlabels, hword, (counter_parts_labels_iff hsource 0 4 hlabels hword).mpr ?_⟩
  exact ⟨⟨rfl, ⟨4, 9, .single 9 9⟩, by decide +kernel, by decide +kernel⟩,
    fun h => absurd h.1 (by decide)⟩

end Scratchpad.Script
