import Scratchpad.Proofs.Script.Rendering

/-!
The loops of a script are guarded. The edits that guard them are given loop by loop, behind those of
the console heads; carried out they are in the order of the nest, since at each place the two have
the same edits in the same order.
-/
namespace Scratchpad.Script

open Instrument (Options)
open Text (Edit)
open Text.Edit (isAt)

variable {o : Outline} {options : Options} {i j k b c w d n m : Nat} {t : Nest} {l : Loop}

/-- The edits that guard loops, the first of them under the number `n + 1`. -/
def guardsFrom (o : Outline) (options : Options) (n : Nat) (ls : List Loop) : List Edit :=
  (ls.zipIdx n).flatMap fun (l, k) => l.edits o options (k + 1)

section

variable {ls ls' : List Loop} {f : Edit}

theorem guardsFrom_cons : guardsFrom o options n (l :: ls)
    = [.openAt (o.start l.start) (counterText (n + 1))] ++ [l.body.entry o options (n + 1)]
      ++ l.body.exit o ++ [.closeAt (o.stop l.last) " \x7d"]
      ++ guardsFrom o options (n + 1) ls := by
  simp [guardsFrom, Loop.edits_eq]

theorem guardsFrom_append : guardsFrom o options n (ls ++ ls')
    = guardsFrom o options n ls ++ guardsFrom o options (n + ls.length) ls' := by
  simp [guardsFrom, List.zipIdx_append]

theorem mem_guardsFrom (h : f ∈ guardsFrom o options n ls) :
    ∃ l ∈ ls, ∃ n', f ∈ l.edits o options n' := by
  obtain ⟨⟨l, k⟩, hl, hf⟩ := List.mem_flatMap.mp h
  exact ⟨l, List.fst_mem_of_mem_zipIdx hl, k + 1, hf⟩

theorem mem_edits (h : f ∈ l.edits o options n) : f = .openAt (o.start l.start) (counterText n) ∨
    f = l.body.entry o options n ∨ f = .closeAt f.start " \x7d" := by
  rw [Loop.edits_eq] at h
  simp only [List.mem_cons, List.mem_append, List.not_mem_nil, or_false] at h
  rcases h with rfl | rfl | h | rfl
  · exact .inl rfl
  · exact .inr (.inl rfl)
  · cases hb : l.body <;> simp only [hb, LoopBody.exit, List.mem_singleton, List.not_mem_nil] at h
    exact .inr (.inr (h ▸ rfl))
  · exact .inr (.inr rfl)

/-- What ends at a place is the same for all loops. -/
theorem eq_of_mem_guardsFrom (h : f ∈ guardsFrom o options n ls) (hk : f.kind = .close) :
    f = .closeAt f.start " \x7d" := by
  obtain ⟨l, -, n', hf⟩ := mem_guardsFrom h
  rcases mem_edits hf with rfl | rfl | hf
  · cases hk
  · cases hb : l.body <;> rw [hb] at hk <;> cases hk
  · exact hf

/-- What is replaced is a semicolon. -/
theorem text_of_mem_guardsFrom (hl : ∀ l ∈ ls, ∀ s, l.body = .empty s → o.text s = ";")
    (h : f ∈ guardsFrom o options n ls) (hk : f.kind = .replace) :
    ∃ s, o.text s = ";" ∧ f.start = o.start s := by
  obtain ⟨l, hmem, n', hf⟩ := mem_guardsFrom h
  rcases mem_edits hf with rfl | rfl | hf
  · cases hk
  · cases hb : l.body with
    | block => rw [hb] at hk; cases hk
    | empty s => exact ⟨s, hl l hmem s hb, rfl⟩
    | single => rw [hb] at hk; cases hk
  · rw [hf] at hk
    cases hk

end

/-- The edits of a loop at one place, as they are given and as they are carried out: `cs` are the
console heads, `g` the guards of the loops in a part and `e` what the part has in order. The two
agree if the guard of the loop may stand on either side of those in its head and all that ends there
ends alike. -/
theorem regroup {α : Type} {cs c₁ c₂ c₃ c₄ c₅ start entry exit close : List α}
    {g₂ g₃ g₄ g₅ e₂ e₃ e₄ e₅ : List α}
    (hcs : cs = c₁ ++ c₂ ++ c₃ ++ c₄ ++ c₅) (h₂ : c₂ ++ g₂ = e₂) (h₃ : c₃ ++ g₃ = e₃)
    (h₄ : c₄ ++ g₄ = e₄) (h₅ : c₅ ++ g₅ = e₅)
    (h : cs = [] ∧ exit = [] ∧ close = [] ∧ entry ++ g₂ = g₂ ++ entry ∨
      start ++ entry ++ exit ++ close ++ g₂ ++ g₃ ++ g₄ ++ g₅ = [] ∨
      cs = [] ∧ start = [] ∧ entry = [] ∧ ∃ z, ∀ x ∈ exit ++ close ++ g₂ ++ g₃ ++ g₄, x = z) :
    cs ++ (start ++ entry ++ exit ++ close ++ (g₂ ++ g₃ ++ g₄ ++ g₅))
      = c₁ ++ (start ++ (e₂ ++ (entry ++ e₃ ++ exit) ++ e₄ ++ close)) ++ e₅ := by
  subst h₂ h₃ h₄ h₅
  rcases h with ⟨hnone, rfl, rfl, hswap⟩ | hnone | ⟨hnone, rfl, rfl, z, hz⟩
  · rw [hnone] at hcs ⊢
    simp only [List.nil_eq, List.append_eq_nil_iff] at hcs
    obtain ⟨⟨⟨⟨rfl, rfl⟩, rfl⟩, rfl⟩, rfl⟩ := hcs
    simp only [List.nil_append, List.append_nil, List.append_assoc]
    rw [← List.append_assoc entry, hswap, List.append_assoc]
  · simp only [List.append_eq_nil_iff] at hnone
    obtain ⟨⟨⟨⟨⟨⟨⟨rfl, rfl⟩, rfl⟩, rfl⟩, rfl⟩, rfl⟩, rfl⟩, rfl⟩ := hnone
    simp only [hcs, List.nil_append, List.append_nil, List.append_assoc]
  · rw [hnone] at hcs ⊢
    simp only [List.nil_eq, List.append_eq_nil_iff] at hcs
    obtain ⟨⟨⟨⟨rfl, rfl⟩, rfl⟩, rfl⟩, rfl⟩ := hcs
    simp only [List.forall_mem_append] at hz
    obtain ⟨⟨⟨⟨hexit, hclose⟩, hg₂⟩, hg₃⟩, hg₄⟩ := hz
    rw [List.eq_replicate_of_mem hexit, List.eq_replicate_of_mem hclose,
      List.eq_replicate_of_mem hg₂, List.eq_replicate_of_mem hg₃, List.eq_replicate_of_mem hg₄]
    simp only [List.nil_append, ← List.append_assoc, List.replicate_append_replicate]
    congr 2
    omega

theorem filter_consoleBetween {s x y : Nat} {kind : Edit.Kind}
    (h : (consoleEdits o options).filter (isAt s kind) = []) :
    (consoleBetween o options x y).filter (isAt s kind) = [] := by
  refine List.filter_eq_nil_iff.mpr fun f hf => List.filter_eq_nil_iff.mp h f ?_
  exact (List.mem_filter.mp hf).1

theorem filter_consoleEdits {s : Nat} {kind : Edit.Kind} (hk : kind ≠ .replace) :
    (consoleEdits o options).filter (isAt s kind) = [] := by
  refine List.filter_eq_nil_iff.mpr fun f hf hat => hk ?_
  obtain ⟨-, -, -, -, hkind⟩ := mem_consoleEdits hf
  rw [← (Edit.isAt_iff.mp hat).2, hkind]

theorem Nest.Holds.text_of_empty (h : Holds o i j t) (hs : o.Scripted) (l : Loop) (hl : l ∈ t.loops)
    (s : Nat) (hb : l.body = .empty s) : o.text s = ";" := by
  refine @text_of_mem_loopsFrom o l s [] (Outline.upTo i j) ?_ hb
  rw [h.loopsFrom hs (List.forall_mem_nil _) (Nat.le_refl j)]
  exact List.mem_append_left _ hl

/-- Where a console head is rewritten no loop is guarded. -/
theorem Nest.Holds.filter_guards (h : Holds o i j t) (options : Options) (n s : Nat)
    (kind : Edit.Kind) (hs : o.Scripted) (hp : o.Placed)
    (hc : (consoleEdits o options).filter (isAt s kind) ≠ []) :
    (guardsFrom o options n t.loops).filter (isAt s kind) = [] := by
  obtain ⟨f, hf⟩ := List.exists_mem_of_ne_nil _ hc
  obtain ⟨hf, hat⟩ := List.mem_filter.mp hf
  obtain ⟨m, hm, hstart, -, hkind⟩ := mem_consoleEdits hf
  obtain ⟨hs', hk⟩ := Edit.isAt_iff.mp hat
  refine List.filter_eq_nil_iff.mpr fun g hg hat' => ?_
  obtain ⟨hgs, hgk⟩ := Edit.isAt_iff.mp hat'
  obtain ⟨q, ht, hq⟩ := text_of_mem_guardsFrom (h.text_of_empty hs) hg (by rw [hgk, ← hk, hkind])
  have hmlt := lt_size_of_isConsoleHead hm
  obtain rfl : q = m := hp.start_inj (lt_size_of_text ht) (by omega) (by omega)
  rw [(text_of_isConsoleHead hm).1] at ht
  exact absurd ht (by decide)

theorem eq_of_mem_exit {f : Edit} {body : LoopBody} (h : f ∈ body.exit o) :
    f = .closeAt f.start " \x7d" := by
  cases body <;> simp only [LoopBody.exit, List.mem_singleton, List.not_mem_nil] at h
  rw [h]
  rfl

theorem filter_entry {s : Nat} {body : LoopBody} :
    [body.entry o options n].filter (isAt s .close) = [] := by
  cases body <;> simp [LoopBody.entry, isAt, Edit.openAt]

theorem filter_exit {s : Nat} {kind : Edit.Kind} {body : LoopBody} (hk : kind ≠ .close) :
    (body.exit o).filter (isAt s kind) = [] := by
  refine List.filter_eq_nil_iff.mpr fun f hf hat => hk ?_
  rw [← (Edit.isAt_iff.mp hat).2, eq_of_mem_exit hf]
  rfl

theorem eq_of_mem_filter_close {s : Nat} {es : List Edit}
    (h : ∀ f ∈ es, f.kind = .close → f = .closeAt f.start " \x7d") :
    ∀ f ∈ es.filter (isAt s .close), f = .closeAt s " \x7d" := by
  intro f hf
  obtain ⟨hmem, hat⟩ := List.mem_filter.mp hf
  obtain ⟨rfl, hkind⟩ := Edit.isAt_iff.mp hat
  exact h f hmem hkind

/-- At each place the edits of a nest are those of its loops and of the console heads. -/
theorem Nest.Holds.filter_edits {x y : Nat} (h : Holds o i j t) (hs : o.Scripted) (hp : o.Placed)
    (hf : Frame o i j x y) (n s : Nat) (kind : Edit.Kind) :
    (consoleBetween o options x y ++ guardsFrom o options n t.loops).filter (isAt s kind)
      = (t.edits o options n x y).filter (isAt s kind) := by
  induction h generalizing x y n with
  | none => simp [guardsFrom, Nest.loops, Nest.edits]
  | @loop i j k b c w d head inner tail rest hik hfree hk hg hh hi ht hr ihh ihi iht ihr =>
    have he := hg.entered hs hp hk options (n + 1)
    have hframes := hf.frames hs hp hik (hr.le hs.toSettled) hk hg he
    have hhead := hh.layout hs hp hframes.head options (n + 1)
    have ihh := ihh hframes.head (n + 1)
    have ihi := ihi hframes.inner (n + 1 + head.loops.length)
    have iht := iht hframes.tail (n + 1 + head.loops.length + inner.loops.length)
    have ihr := ihr hframes.rest
      (n + 1 + head.loops.length + inner.loops.length + tail.loops.length)
    have hguards := (Holds.loop hik hfree hk hg hh hi ht hr).filter_guards options n s kind hs hp
    have hsplit : (consoleBetween o options x y).filter (isAt s kind) = _ :=
      congrArg _ (consoleBetween_split hp hframes he)
    simp only [Nest.loops, guardsFrom_cons, guardsFrom_append, List.filter_append,
      List.length_append, ← Nat.add_assoc] at hguards hsplit ihh ihi iht ihr ⊢
    refine (regroup hsplit ihh ihi iht ihr ?_).trans ?_
    · by_cases hclose : kind = .close
      · subst hclose
        refine .inr (.inr ⟨filter_consoleBetween (filter_consoleEdits (by decide)), ?_,
          filter_entry, .closeAt s " \x7d", ?_⟩)
        · simp [isAt, Edit.openAt]
        · have hguard (n : Nat) (ls : List Loop) :=
            eq_of_mem_filter_close (s := s) fun f (hf : f ∈ guardsFrom o options n ls) =>
              eq_of_mem_guardsFrom hf
          simp only [List.forall_mem_append]
          exact ⟨⟨⟨⟨eq_of_mem_filter_close fun f hf _ => eq_of_mem_exit hf,
            eq_of_mem_filter_close (List.forall_mem_singleton.mpr fun _ => rfl)⟩,
            hguard _ _⟩, hguard _ _⟩, hguard _ _⟩
      · by_cases hconsole : (consoleEdits o options).filter (isAt s kind) = []
        · refine .inl ⟨filter_consoleBetween hconsole, filter_exit hclose, ?_, ?_⟩
          · refine List.filter_eq_nil_iff.mpr (List.forall_mem_singleton.mpr fun hat => hclose ?_)
            rw [← (Edit.isAt_iff.mp hat).2]
            rfl
          · -- what the head opens it opens in front of the guard
            rw [filter_consoleBetween hconsole, List.nil_append] at ihh
            rw [ihh]
            exact hhead.filter_swap hclose
        · refine .inr (.inl ?_)
          simpa only [List.append_assoc] using hguards hconsole
    · simp only [← List.filter_append]
      rfl

/-- In a script without faults in which every word of a loop heads a loop statement, or ends a `do`
loop, each loop is guarded once and where it stands: the script becomes the text of the nest of its
loops, in which a loop is a block that declares its counter, with the guard in front of all else in
its body. The counters are numbered from one in the order of the loops. -/
theorem instrument_loops {source : List Char}
    (hsource : (tokenize .script source).firstFault = none)
    (hloops : options.loopProtection) (hwrap : options.wrapExpressions = false)
    (h : LoopPassage (tokenize .script source).outline .row 0
      (tokenize .script source).outline.size) :
    let o := (tokenize .script source).outline
    ∃ t : Nest, t.Holds o 0 o.size ∧ loops o = t.loops ∧
      instrument options source = t.write o options 0 0 source.length := by
  intro o
  have hs : o.Scripted := Outline.scripted_tokenize (Option.or_eq_none_iff.mp hsource).2
  have hp : o.Placed := placed_tokenize .script source
  obtain ⟨t, ht⟩ := h.exists_nest hs.toSettled
  have hlist : loops o = t.loops := by
    have hfrom := ht.loopsFrom hs (List.forall_mem_nil _) (Nat.le_refl o.size)
    rwa [Outline.upTo_nil (Nat.le_refl _), loopsFrom, List.append_nil] at hfrom
  refine ⟨t, ht, hlist, ?_⟩
  have hframe : Frame o 0 o.size 0 source.length :=
    ⟨Nat.zero_le _, Nat.le_refl _, fun k _ _ => ⟨Nat.zero_le _, hp.stop_le k⟩, .start o,
      fun m _ hm => absurd hm (Nat.not_lt_zero _), fun m _ _ => hp.stop_le (m + 3)⟩
  have hconsole : consoleBetween o options 0 source.length = consoleEdits o options := by
    refine List.filter_eq_self.mpr fun f hf => Edit.startsBetween_iff.mpr ⟨Nat.zero_le _, ?_⟩
    obtain ⟨m, hm, hstart, -⟩ := mem_consoleEdits hf
    have hlt := hp.start_lt_stop (show m < o.size by have := lt_size_of_isConsoleHead hm; omega)
    exact hstart ▸ Nat.lt_of_lt_of_le hlt (hp.stop_le m)
  have hedits : instrumentEdits o options = consoleBetween o options 0 source.length
      ++ guardsFrom o options 0 t.loops := by
    rw [instrumentEdits, if_pos hloops, hwrap, hconsole, guardEdits, hlist, guardsFrom]
    simp
  rw [instrument, hedits,
    (ht.layout hs hp hframe options 0).apply_eq (ht.filter_edits hs hp hframe 0),
    ← ht.patch_edits hs hp hframe 0]
  rfl

/-- A `do` loop as the body of a `while` loop stands in the block of that loop, with the condition
at its end, which has no guard. -/
theorem instrument_loops_of_nested :
    let source := "while (a) do b\nwhile (c)".toList
    let o := (tokenize .script source).outline
    let options : Options := { wrapExpressions := false }
    (tokenize .script source).firstFault = none ∧ options.loopProtection ∧
      LoopPassage o .row 0 o.size ∧ ∃ t : Nest, t.Holds o 0 o.size ∧ loops o = t.loops ∧
        t.loops = [⟨0, 9, .single 4 9⟩, ⟨4, 9, .single 5 5⟩] ∧
        instrument options source = t.write o options 0 0 source.length := by
  intro source o options
  have hsource : (tokenize .script source).firstFault = none := by decide +kernel
  have hs : o.Settled := (Outline.scripted_tokenize (Option.or_eq_none_iff.mp hsource).2).toSettled
  have hname {i : Nat} (hi : i < o.size) (hw : isLoopWord o i = false)
      (ho : o.isOpener i = false) (hc : Token.isCloser (o.text i) = false) :
      LoopPassage o .plain i (i + 1) := .token hi hw ho hc (.nil hi)
  have hcondition : LoopPassage o (.group "(") 1 4 :=
    .group (by decide +kernel) (.row (hname (by decide +kernel) (by decide +kernel)
      (by decide +kernel) (by decide +kernel))) (by decide +kernel)
  have hend : LoopPassage o (.group "(") 7 10 :=
    .group (by decide +kernel) (.row (hname (by decide +kernel) (by decide +kernel)
      (by decide +kernel) (by decide +kernel))) (by decide +kernel)
  have hb : LoopPassage o .plain 5 6 := hname (by decide +kernel) (by decide +kernel)
    (by decide +kernel) (by decide +kernel)
  have hinner : LoopPassage o .statement 4 10 :=
    .doWhile (by decide +kernel) (by decide +kernel)
      (.simple (by decide +kernel) hb ⟨by decide, hb.even hs, fun k hk hk' => by omega,
        .inr (.inr (.inr (by decide +kernel)))⟩)
      (by decide +kernel) hend (by decide +kernel)
  have houter : LoopPassage o .statement 0 10 :=
    .headed (by decide +kernel) (by decide +kernel) hcondition hinner
  have hsize : o.size = 10 := by decide +kernel
  have hrow : LoopPassage o .row 0 o.size :=
    hsize ▸ .rows (.nil (Nat.zero_le _)) houter (.row (.nil (Nat.le_of_eq hsize.symm)))
  obtain ⟨t, ht, hlist, htext⟩ :=
    instrument_loops hsource (show options.loopProtection from rfl) rfl hrow
  refine ⟨hsource, rfl, hrow, t, ht, hlist, hlist ▸ ?_, htext⟩
  decide +kernel

end Scratchpad.Script
