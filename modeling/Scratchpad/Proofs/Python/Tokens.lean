import Scratchpad.Proofs.Python.Check

/-!
The tokens of an instrumented Python program: those of the program but for the heads that are rewritten,
and those of the texts that are inserted, in the order of the text.
-/
namespace Scratchpad.Python

open Instrument (Options)
open Shard (IsName Woven)
open Text (Edit)

variable {o : Outline} {options : Options} {source : List Char} {s t : Statement} {e a b : Edit}
  {i j : Nat}

/-- A token of a head that is rewritten: the word and the bracket of a call of `print`, and the `while`
of a loop that becomes a `for`. -/
inductive Rewritten (o : Outline) (options : Options) : Nat → Prop where
  | word {i : Nat} (h : isPrintHead o i) : Rewritten o options i
  | bracket {i : Nat} (h : isPrintHead o i) : Rewritten o options (i + 1)
  | loop {s : Statement} (hp : options.loopProtection) (hs : s ∈ statements o)
      (h : (whileHead? o s).isSome) : Rewritten o options s.first

/-- The tokens that the edits take out are those of the heads. -/
theorem rewritten_iff (h : Clean source o) (hf : IsName options.debugFunction.toList) (hi : i < o.size) :
    (∃ e ∈ Edit.kept (instrumentEdits o options) source, e.start ≤ o.start i ∧ o.start i < e.stop)
      ↔ Rewritten o options i := by
  have hp := h.seated.placed
  have hu := unbroken_name hf
  have hle {k : Nat} (hk : k < o.size) (hstart : o.start k ≤ o.start i) : k ≤ i := by
    refine Nat.le_of_not_lt fun hlt => ?_
    have hstop := hp.stop_le_start hlt hk
    have hpos := hp.start_lt_stop hi
    omega
  rw [← h.source]
  constructor
  · rintro ⟨e, he, hstart, hstop⟩
    cases (shape_instrumentEdits hp hu e (Edit.mem_of_mem_kept he)).1 with
    | inserts hs hk hw => omega
    | @print k hk =>
      have hki := hle (Nat.lt_of_succ_lt (lt_size_of_isPrintHead hk)) hstart
      have hik : i ≤ k + 1 := Nat.le_of_not_lt fun hlt =>
        Nat.not_lt_of_le (hp.stop_le_start hlt hi) hstop
      obtain rfl | rfl : i = k ∨ i = k + 1 := by omega
      · exact .word hk
      · exact .bracket hk
    | @loop s w hprotect hs hw =>
      have hsi := hle (Nat.lt_of_succ_lt (lt_size_of_whileHead? hw)) hstart
      have his : i ≤ s.first := Nat.le_of_not_lt fun hlt =>
        Nat.not_lt_of_le (hp.start_le_start hlt hi) hstop
      obtain rfl : i = s.first := Nat.le_antisymm his hsi
      exact .loop hprotect hs (hw ▸ rfl)
  · intro hr
    cases hr with
    | word hk =>
      have hlt := lt_size_of_isPrintHead hk
      exact ⟨_, print_mem_kept hp hu hk, Nat.le_refl _,
        Nat.lt_of_lt_of_le (hp.start_lt_stop hi) (hp.stop_le_stop (Nat.le_succ i) hlt)⟩
    | @bracket k hk =>
      exact ⟨_, print_mem_kept hp hu hk, hp.start_le_start (Nat.le_succ k) hi, hp.start_lt_stop hi⟩
    | @loop s hprotect hs hw =>
      obtain ⟨w, hw⟩ := Option.isSome_iff_exists.mp hw
      exact ⟨_, loop_mem_kept hp hu hprotect hs hw, Nat.le_refl _, Nat.lt_of_lt_of_le
        (hp.start_lt_stop hi) (hp.stop_le_start (Nat.lt_succ_self _) (lt_size_of_whileHead? hw))⟩

/-! ### Words that a guard is opened behind -/

section

variable (h : Clean source o) (hs : s ∈ statements o) (hk : guardWord? o s = some j)

include hk

theorem whileHead?_of_guardWord? : whileHead? o s = none := by
  refine Option.eq_none_iff_forall_not_mem.mpr fun w hw => ?_
  obtain ⟨-, hwhile, colon, hc, -, hhead⟩ := whileHead?_eq_some.mp hw
  obtain ⟨-, ⟨hfor, -⟩ | ⟨-, -, colon', hc', -, ht⟩⟩ := guardWord?_eq_some.mp hk
  · exact absurd (hwhile.symm.trans hfor) (by decide)
  · obtain rfl : colon = colon' := Option.some.inj (hc.symm.trans hc')
    rw [ht] at hhead
    cases hhead

include h hs

/-- No other statement has the word in it. -/
theorem eq_of_guardWord? (ht : t ∈ statements o) (hfirst : t.first ≤ j) (hlast : j ≤ t.last) : s = t := by
  obtain ⟨colon, hring⟩ := h.ring_of_guardWord? (whole_statements h.settled s hs) hk
  have hlt := hring.lt
  have hle := hring.last
  rcases Nat.le_total s.first t.first with hst | hts
  · exact eq_of_within hs ht hst (by omega)
  · exact (eq_of_within ht hs hts (Nat.le_trans hring.first hlast)).symm

/-- Whatever an edit takes out, it leaves the word. -/
theorem stays_of_guardWord? (hp : options.loopProtection) (hf : IsName options.debugFunction.toList)
    (he : e ∈ instrumentEdits o options) : e.stop ≤ o.start j ∨ o.stop j ≤ e.start := by
  have hplaced := h.seated.placed
  have hword := text_of_guardWord (mem_guardWords hp hs hk)
  have hj : j < o.size := Outline.lt_size (by rcases hword with hw | hw <;> rw [hw] <;> decide)
  have hnot {k : Nat} {w : String} (hi : o.text k = w) (hin : w ≠ "in") (hwhile : w ≠ "while") :
      k ≠ j := by
    rintro rfl
    exact hword.elim (fun hw => hin (hi.symm.trans hw)) fun hw => hwhile (hi.symm.trans hw)
  cases (shape_instrumentEdits hplaced (unbroken_name hf) e he).1 with
  | @inserts e hs hkind hw =>
    -- an insertion stands at an edge of a token
    rw [hs]
    cases placing_instrumentEdits h hf e he with
    | @opens n k text ht hk heven hb =>
      rcases Nat.lt_or_ge j k with hlt | hle
      · exact .inr (hplaced.stop_le_start hlt hk)
      · exact .inl (hplaced.start_le_start hle hj)
    | @closes n k text ht hk heven =>
      rcases Nat.lt_or_ge k j with hlt | hle
      · exact .inl (hplaced.stop_le_start hlt hj)
      · exact .inr (hplaced.stop_le_stop hle hk)
    | print => exact absurd rfl hkind
    | loop => exact absurd rfl hkind
  | @print i hi =>
    have hne := hnot (text_of_isPrintHead hi).1 (by decide) (by decide)
    have hne' := hnot (text_of_isPrintHead hi).2 (by decide) (by decide)
    rcases Nat.lt_or_ge i j with hlt | hle
    · exact .inl (hplaced.stop_le_start (show i + 1 < j by omega) hj)
    · exact .inr (hplaced.stop_le_start (show j < i by omega)
        (Nat.lt_of_succ_lt (lt_size_of_isPrintHead hi)))
  | @loop t w hprotect ht hw =>
    have hwhole := whole_statements h.settled t ht
    have hne : t.first ≠ j := fun heq => by
      obtain rfl := eq_of_guardWord? h hs hk ht (Nat.le_of_eq heq) (heq ▸ hwhole.le)
      rw [whileHead?_of_guardWord? hk] at hw
      cases hw
    rcases Nat.lt_or_ge t.first j with hlt | hle
    · exact .inl (hplaced.start_le_start hlt hj)
    · exact .inr (hplaced.stop_le_start (show j < t.first by omega)
        (Nat.lt_of_succ_lt (lt_size_of_whileHead? hw)))

/-- No statement ends with the word. -/
theorem last_ne_of_guardWord? (ht : t ∈ statements o) : t.last ≠ j := by
  rintro rfl
  obtain rfl := eq_of_guardWord? h hs hk ht (whole_statements h.settled t ht).le (Nat.le_refl _)
  obtain ⟨colon, hring⟩ := h.ring_of_guardWord? (whole_statements h.settled s hs) hk
  have hlt := hring.lt
  have hle := hring.last
  omega

/-- No guard is closed at the end of the word. -/
theorem close_ne_of_guardWord? (hj : j < o.size) (ht : t ∈ statements o)
    (hg : Guard o options t a b) : b.start ≠ o.stop j := by
  intro heq
  have hwhole := whole_statements h.settled t ht
  have hwithin := hwhole.within
  obtain ⟨k, colon, hring, hb, hword⟩ := h.ring_of_guard hwhole hg
  have hfirst := hring.first
  have hlt := hring.lt
  have hlast := hring.last
  obtain rfl : colon - 1 = j := h.seated.placed.stop_inj (by omega) hj (hb.symm.trans heq)
  obtain rfl := eq_of_guardWord? h hs hk ht (by omega) (by omega)
  have hsame := hword _ hk
  omega

/-- What is written at the end of the word begins with a name. -/
theorem named_of_guardWord? (hj : j < o.size) (hf : IsName options.debugFunction.toList)
    (he : e ∈ instrumentEdits o options) (hat : e.start = o.stop j) :
    Shard.Inserted (Shard.rowOf e) ∧ ∃ cs row, Shard.rowOf e = Shard.name cs :: row := by
  simp only [instrumentEdits, List.mem_append] at he
  rcases he with (he | he) | he
  · obtain ⟨i, -, rfl⟩ := mem_printEdits.mp he
    rw [rowOf_callEdit hf]
    exact ⟨inserted_head hf, _, _, rfl⟩
  · split at he
    · next hp =>
      obtain ⟨t, ht, _, rfl | ⟨-, a, b, hg, rfl⟩, he⟩ := (spread_guards hp).of_mem he
      · cases he
      · rcases List.mem_cons.mp he with rfl | he
        · obtain ⟨n, hopen⟩ := hg.opening
          exact ⟨hopen.inserted, hopen.first⟩
        · obtain rfl := List.mem_singleton.mp he
          exact absurd hat (close_ne_of_guardWord? h hs hk hj ht hg)
    · cases he
  · split at he
    · next hwrap =>
      have hspread := @spread_reports o options (statements o) true false (fun _ => True)
        fun _ _ => trivial
      obtain ⟨t, ht, _, rfl | ⟨-, rfl⟩, he⟩ := hspread.of_mem he
      · cases he
      · rcases List.mem_cons.mp he with rfl | he
        · exact ⟨(opening_report hf).inserted, (opening_report hf).first⟩
        · obtain rfl := List.mem_singleton.mp he
          have hwithin := (whole_statements h.settled t ht).within
          exact absurd (h.seated.placed.stop_inj hwithin hj hat) (last_ne_of_guardWord? h hs hk ht)
    · cases he

/-- The word becomes one name with the guard that is opened directly behind it. -/
theorem glued_of_guardWord? (hp : options.loopProtection) (hf : IsName options.debugFunction.toList)
    (htouch : o.touchesNext j) :
    ∃ w, Shard.Glued (pieces source) (Edit.kept (instrumentEdits o options) source) (o.start j) w := by
  have hplaced := h.seated.placed
  simp only [Outline.touchesNext, Bool.and_eq_true, decide_eq_true_eq] at htouch
  obtain ⟨hlt, htouch⟩ := htouch
  obtain ⟨front, x, back, hseat⟩ := h.seated.seat j (Nat.lt_of_succ_lt hlt)
  obtain ⟨w, rfl, hname⟩ := h.eq_name_of_guardWord (mem_guardWords hp hs hk) hseat
  have hstop : o.start j + w.length = o.stop j := by
    rw [← hseat.start, ← hseat.stop, Shard.textOf_append, List.length_append]
    simp [Shard.name]
  refine ⟨w, hname, ⟨front, back, hseat.split_start⟩, fun e he => ?_, ?_, fun e he hat => ?_⟩
  · rw [hstop]
    exact stays_of_guardWord? h hs hk hp hf (Edit.mem_of_mem_kept he)
  · obtain ⟨a, b, hg, hstart, ha⟩ := @mem_guards_of_guardWord? o options s _ j 0 hs hk
    have hmem : a ∈ instrumentEdits o options :=
      List.mem_append_left _ (List.mem_append_right _ (by rwa [if_pos hp]))
    have hshape := shape_instrumentEdits hplaced (unbroken_name hf)
    refine ⟨a, ?_, by rw [hstart, ← htouch, hstop]⟩
    rw [← h.source]
    exact Edit.mem_kept (fun f hf => (hshape f hf).1.fits hplaced) hmem
      fun f hf hr => (hg.spared h hs).1 f (hshape f hf).1 hr
  · exact named_of_guardWord? h hs hk (Nat.lt_of_succ_lt hlt) hf (Edit.mem_of_mem_kept he) (hat.trans hstop)

end

/-- The tokens of an instrumented program are those of the program beside the edits and those that the
edits write if and only if no word that a guard is opened behind touches what stands behind it, and the
edits take out just the heads that are rewritten. -/
theorem tokens_instrument (h : check source = .ok ()) (hf : IsName options.debugFunction.toList) :
    let edits := Edit.kept (instrumentEdits (tokenize .python source).outline options) source
    (bareTokens (instrument options source) = weave (tokenize .python source).tokens.toList edits ↔
      ∀ j ∈ guardWords (tokenize .python source).outline options,
        (tokenize .python source).outline.touchesNext j = false) ∧
    ∀ i < (tokenize .python source).outline.size,
      (∃ e ∈ edits, e.start ≤ (tokenize .python source).outline.start i ∧
        (tokenize .python source).outline.start i < e.stop)
        ↔ Rewritten (tokenize .python source).outline options i := by
  have hclean := clean_of_check h
  have hplacing := placing_instrumentEdits hclean hf
  have hwoven := woven_edits h hf hplacing
  have hlocated := (passed_tokenize .python source).located
  have hstart : Shard.Split (pieces source) 0 [] (pieces source) := ⟨rfl, rfl⟩
  refine ⟨⟨fun heq j hj => ?_, fun hgap => ?_⟩, fun i hi => rewritten_iff hclean hf hi⟩
  · refine Bool.eq_false_iff.mpr fun htouch => ?_
    obtain ⟨hp, s, hs, hk⟩ := exists_of_mem_guardWords hj
    obtain ⟨w, hglued⟩ := glued_of_guardWord? hclean hs hk hp hf htouch
    have hout := diagnostics_eq_nil.mp (diagnostics_apply h hf hplacing)
    have hless := hwoven.length_tokens_lt hclean.seated.sound (.of_pieces hout) hstart hglued
      (Nat.zero_le _) hlocated
    rw [bareTokens_eq] at heq
    exact Nat.ne_of_lt hless (congrArg List.length heq)
  · rw [bareTokens_eq]
    exact hwoven.tokens hclean.seated.sound hstart
      (fun e he => (hplacing e (Edit.mem_of_mem_kept he)).clear hclean hgap) hlocated

/-- The items of a loop are led through a counter, and what stands behind the loop is reported. -/
theorem tokens_instrument_of_loop :
    let source := "for i in x:\n    i\ni + 1\n".toList
    let options : Options := {}
    check source = .ok () ∧ IsName options.debugFunction.toList ∧
    (∀ j ∈ guardWords (tokenize .python source).outline options,
      (tokenize .python source).outline.touchesNext j = false) ∧
    (bareTokens (instrument options source)).map Token.text = ["for", "i", "in", "__livepad_iter", "(",
      "(", "x", ")", ",", "10000", ",", "100", ")", ":", "i", "__livepad_debug", "(", "3", ",", "(", "i",
      "+", "1", ")", ")"] := by
  intro source options
  have hcheck : check source = .ok () := by
    have hnone : (tokenize .python source).firstFault = none := by decide +kernel
    unfold check
    rw [hnone]
  have hname : IsName options.debugFunction.toList := by decide +kernel
  have hgap : ∀ j ∈ guardWords (tokenize .python source).outline options,
      (tokenize .python source).outline.touchesNext j = false := by decide +kernel
  -- the edits come in the order of the text, and sorting them is no work
  have hsorted : (instrumentEdits (tokenize .python source).outline options).Pairwise
      fun e f => Edit.le e f := by decide +kernel
  refine ⟨hcheck, hname, hgap, ?_⟩
  rw [(tokens_instrument hcheck hname).1.mpr hgap]
  unfold Edit.kept
  rw [List.mergeSort_of_pairwise hsorted]
  decide +kernel

end Scratchpad.Python
