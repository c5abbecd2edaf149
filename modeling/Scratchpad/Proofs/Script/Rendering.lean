import Scratchpad.Proofs.Script.Seam
import Scratchpad.Proofs.Text.Layout

/-!
Scripts with their loops guarded. A guarded loop stands in a block of its own that starts with the
declaration of a counter; the body starts with the guard on that counter, in braces if it had none.
The text of a guarded script is that of its nest written down loop by loop.
-/
namespace Scratchpad.Script

open Instrument (Options)
open Outline (Throughout)
open Text (Edit slice slice_self)
open Text.Edit (patch isAt Layout Spaced)

/-- Declares the counter of the loop with number `n` at the beginning of its block. -/
def counterText (n : Nat) : String := s!"\x7b let __lp{n} = 0; "

section

variable (o : Outline) (options : Options)

/-- The console heads that start from `a` up to `b`. -/
def consoleBetween (a b : Nat) : List Edit :=
  (consoleEdits o options).filter (Edit.startsBetween a b)

/-- The source from `a` up to `b`, its console heads rewritten. -/
def plainText (a b : Nat) : List Char := patch o.source b a (consoleBetween o options a b)

/-- The head and the body of the loop with number `n`, from `a` up to `b`; `head` and `inner` write
what stands between two offsets. -/
def LoopBody.write (n a b : Nat) (head inner : Nat → Nat → List Char) : LoopBody → List Char
  | .block opener =>
    head a (o.stop opener) ++ s!" {guardText options n}".toList ++ inner (o.stop opener) b
  | .empty semicolon => head a (o.start semicolon) ++ s!"\x7b {guardText options n} \x7d".toList
  | .single first _ =>
    head a (o.start first) ++ s!"\x7b {guardText options n} ".toList ++ inner (o.start first) b
      ++ " \x7d".toList

/-- The text from `a` up to `b` with the loops of the nest guarded, the first of them under the
number `n + 1`. -/
def Nest.write : Nest → Nat → Nat → Nat → List Char
  | .none, _, a, b => plainText o options a b
  | .loop l bodyLast head inner tail rest, n, a, b =>
    let innerFrom := n + 1 + head.loops.length
    let tailFrom := innerFrom + inner.loops.length
    let restFrom := tailFrom + tail.loops.length
    plainText o options a (o.start l.start) ++ (counterText (n + 1)).toList
      ++ l.body.write o options (n + 1) (o.start l.start) (o.stop bodyLast)
        (head.write (n + 1)) (inner.write innerFrom)
      ++ tail.write tailFrom (o.stop bodyLast) (o.stop l.last) ++ " \x7d".toList
      ++ rest.write restFrom (o.stop l.last) b

/-- The edit that puts the guard into a body. -/
def LoopBody.entry (n : Nat) : LoopBody → Edit
  | .block opener => .openAt (o.stop opener) s!" {guardText options n}"
  | .empty semicolon =>
    ⟨o.start semicolon, o.stop semicolon, .replace, s!"\x7b {guardText options n} \x7d"⟩
  | .single first _ => .openAt (o.start first) s!"\x7b {guardText options n} "

/-- The brace that a body without braces gets at its end. -/
def LoopBody.exit : LoopBody → List Edit
  | .single _ last => [.closeAt (o.stop last) " \x7d"]
  | _ => []

/-- The edits of a nest in the order in which they are carried out, with those of console heads. -/
def Nest.edits : Nest → Nat → Nat → Nat → List Edit
  | .none, _, a, b => consoleBetween o options a b
  | .loop l bodyLast head inner tail rest, n, a, b =>
    let innerFrom := n + 1 + head.loops.length
    let tailFrom := innerFrom + inner.loops.length
    let restFrom := tailFrom + tail.loops.length
    let entry := l.body.entry o options (n + 1)
    consoleBetween o options a (o.start l.start)
      ++ (.openAt (o.start l.start) (counterText (n + 1))
        :: (head.edits (n + 1) (o.start l.start) entry.start
          ++ (entry :: inner.edits innerFrom entry.stop (o.stop bodyLast) ++ l.body.exit o)
          ++ tail.edits tailFrom (o.stop bodyLast) (o.stop l.last)
          ++ [.closeAt (o.stop l.last) " \x7d"]))
      ++ rest.edits restFrom (o.stop l.last) b

end

variable {o : Outline} {options : Options} {i j k b c w d m n a e : Nat} {t : Nest} {l : Loop}

theorem Loop.edits_eq : l.edits o options n = .openAt (o.start l.start) (counterText n)
    :: l.body.entry o options n :: (l.body.exit o ++ [.closeAt (o.stop l.last) " \x7d"]) := by
  cases h : l.body <;> simp [Loop.edits, h, LoopBody.entry, LoopBody.exit, counterText]

/-! ### Console heads between two offsets -/

theorem mem_consoleEdits {f : Edit} (h : f ∈ consoleEdits o options) : ∃ m, isConsoleHead o m ∧
    f.start = o.start m ∧ f.stop = o.stop (m + 3) ∧ f.kind = .replace := by
  obtain ⟨m, -, hm⟩ := List.mem_filterMap.mp h
  obtain ⟨hhead, rfl⟩ := consoleEdit_eq_some.mp hm
  exact ⟨m, hhead, rfl, rfl, rfl⟩

/-- No console head reaches over the offset `a`. -/
def Apart (o : Outline) (a : Nat) : Prop :=
  ∀ m, isConsoleHead o m → o.start m < a → o.stop (m + 3) ≤ a

section

variable (hp : o.Placed)

include hp

theorem Seam.apart_start (h : Seam o j) (hj : j < o.size) : Apart o (o.start j) := by
  intro m hm hlt
  have hmj : m < j := Nat.lt_of_not_le fun hjm => by
    have hle := hp.start_le_start hjm (by have := lt_size_of_isConsoleHead hm; omega)
    omega
  exact hp.stop_le_start ((h.heads m hm).resolve_right (Nat.not_le.mpr hmj)) hj

theorem Seam.apart_stop (h : Seam o (j + 1)) (hj : j < o.size) : Apart o (o.stop j) := by
  intro m hm hlt
  have hmj : m ≤ j := Nat.le_of_not_lt fun hjm => by
    have hle := hp.stop_le_start hjm (by have := lt_size_of_isConsoleHead hm; omega)
    omega
  have hend := (h.heads m hm).resolve_right (by omega)
  exact hp.stop_le_stop (Nat.le_of_lt_succ hend) hj

theorem pairwise_consoleEdits : (consoleEdits o options).Pairwise fun f g => f.stop ≤ g.start := by
  refine List.pairwise_filterMap.mpr (List.pairwise_lt_range.imp fun {m m'} hlt f hf g hg => ?_)
  obtain ⟨hm, rfl⟩ := consoleEdit_eq_some.mp hf
  obtain ⟨hm', rfl⟩ := consoleEdit_eq_some.mp hg
  have hbehind : m + 3 < m' := Nat.lt_of_not_le fun hle =>
    (text_within_head hm hlt hle).1 (text_of_isConsoleHead hm').1
  exact hp.stop_le_start hbehind (by have := lt_size_of_isConsoleHead hm'; omega)

theorem layout_consoleBetween (hab : a ≤ b) (hb : Apart o b) :
    Layout a b (consoleBetween o options a b) := by
  have hmem : ∀ f ∈ consoleBetween o options a b,
      a ≤ f.start ∧ f.start < f.stop ∧ f.start < b ∧ f.stop ≤ b ∧ f.kind = .replace := by
    intro f hf
    obtain ⟨hf, hrange⟩ := List.mem_filter.mp hf
    obtain ⟨m, hm, hstart, hstop, hkind⟩ := mem_consoleEdits hf
    rw [Edit.startsBetween_iff] at hrange
    have hlt := lt_size_of_isConsoleHead hm
    have hle := hp.start_le_start (Nat.le_add_right m 3) hlt
    have hpos := hp.start_lt_stop hlt
    have hend := hb m hm (hstart ▸ hrange.2)
    exact ⟨hrange.1, by omega, hrange.2, by omega, hkind⟩
  have hpairs : (consoleBetween o options a b).Pairwise fun f g => f.stop ≤ g.start :=
    (pairwise_consoleEdits hp).sublist List.filter_sublist
  refine ⟨.of_pairwise hab hpairs fun f hf => ?_, hpairs.imp_of_mem fun {f g} hf hg hle => ?_,
    fun f hf _ hk => ?_, fun f hf hs => ?_⟩
  · have := hmem f hf
    omega
  · have hlt : f.start < g.start := by
      have := hmem f hf
      omega
    simp [Edit.le, hlt]
  · rw [(hmem f hf).2.2.2.2] at hk
    cases hk
  · have := hmem f hf
    omega

theorem consoleBetween_append (ham : a ≤ m) (hmb : m ≤ b) :
    consoleBetween o options a m ++ consoleBetween o options m b
      = consoleBetween o options a b := by
  have hrising : (consoleEdits o options).Pairwise fun f g => f.start ≤ g.start := by
    refine (pairwise_consoleEdits hp).imp_of_mem fun {f g} hf hg hle => ?_
    obtain ⟨n, hn, hstart, hstop, -⟩ := mem_consoleEdits hf
    have hlt := lt_size_of_isConsoleHead hn
    have hle' := hp.start_le_start (Nat.le_add_right n 3) hlt
    have hpos := hp.start_lt_stop hlt
    omega
  exact Edit.filter_startsBetween_append hrising ham hmb

end

/-! ### Where the parts of a loop stand in the text -/

/-- The text from `a` up to `b` holds the tokens from `i` up to `j` and cuts nothing that belongs
together. -/
structure Frame (o : Outline) (i j a b : Nat) : Prop where
  le : a ≤ b
  within : j ≤ o.size
  covers : ∀ k, i ≤ k → k < j → a ≤ o.start k ∧ o.stop k ≤ b
  seam : Seam o i
  left : Apart o a
  right : Apart o b

/-- The guard `e` stands between the head of a loop and what is inside its body, which starts with
token `b` and ends in front of token `c`. -/
structure Entered (o : Outline) (b inside c : Nat) (e : Edit) : Prop where
  kind : e.kind = .opens ∨ e.kind = .replace ∧ e.start < e.stop
  le : e.start ≤ e.stop
  front : o.start b ≤ e.start
  inside : ∀ n, inside ≤ n → n < c → e.stop ≤ o.start n
  lt : e.start < o.stop (c - 1)
  stop_le : e.stop ≤ o.stop (c - 1)
  left : Apart o e.start
  right : Apart o e.stop
  plain : ∀ m, isConsoleHead o m → e.start ≤ o.start m → e.stop ≤ o.start m

theorem Governs.body (h : Governs o k b c w d) : LoopPassage o .statement b c := by
  cases h with
  | headed _ _ hb | awaited _ _ _ hb | doWhile _ hb => exact hb

theorem Governs.entered (h : Governs o k b c w d) (hs : o.Scripted) (hp : o.Placed)
    (hk : isLoopWord o k) (options : Options) (n : Nat) :
    Entered o b (bodyOf o b (c - 1)).inside c ((bodyOf o b (c - 1)).entry o options n) := by
  have hle := h.le hs.toSettled
  have hparted := h.parted hs hk
  have hb := h.body
  have hsize : b < o.size := by omega
  have hpos := hp.start_lt_stop hsize
  have hstart := hparted.body.apart_start hp hsize
  have hinside := hparted.inside
  have hbehind {n : Nat} (hn : b + 1 ≤ n) (hnc : n < c) : o.stop b ≤ o.start n :=
    hp.stop_le_start hn (by omega)
  have hend : o.stop b ≤ o.stop (c - 1) := hp.stop_le_stop (by omega) (by omega)
  unfold bodyOf at hinside ⊢
  split at hinside
  · next ht =>
    -- the bracket that closes the body stands behind the one that opens it
    have hopener : o.isOpener b := by rw [Outline.isOpener, ht]; rfl
    obtain ⟨e, hbe, hec, -⟩ :=
      hs.toSettled.closing_of_even (hb.even hs.toSettled) hle.2.1 hopener
    have hlast := hp.stop_le_start (show b < c - 1 by omega) (by omega)
    have hlast' := hp.start_lt_stop (show c - 1 < o.size by omega)
    have hstop : Apart o (o.stop b) := hinside.apart_stop hp hsize
    exact ⟨.inl rfl, Nat.le_refl _, Nat.le_of_lt hpos, fun n hn hnc => hbehind hn hnc,
      Nat.lt_of_le_of_lt hlast hlast', hend, hstop, hstop, fun m _ hm => hm⟩
  · next ht =>
    have hstop : Apart o (o.stop b) := hinside.apart_stop hp hsize
    refine ⟨.inr ⟨rfl, hpos⟩, Nat.le_of_lt hpos, Nat.le_refl _, fun n hn hnc => hbehind hn hnc,
      Nat.lt_of_lt_of_le hpos hend, hend, hstart, hstop, fun m hm hbm => ?_⟩
    have hmlt : m < o.size := by have := lt_size_of_isConsoleHead hm; omega
    rcases Nat.lt_trichotomy b m with hlt | rfl | hlt
    · exact hp.stop_le_start hlt hmlt
    · rw [(text_of_isConsoleHead hm).1] at ht
      exact absurd ht (by decide)
    · have hle := hp.stop_le_start hlt hsize
      have hpos' := hp.start_lt_stop hmlt
      have hbm : o.start b ≤ o.start m := hbm
      omega
  · exact ⟨.inl rfl, Nat.le_refl _, Nat.le_refl _, fun n hn hnc => hp.start_le_start hn (by omega),
      Nat.lt_of_lt_of_le hpos hend, Nat.le_trans (Nat.le_of_lt hpos) hend, hstart, hstart,
      fun m _ hm => hm⟩

/-- The stretches of a loop and of what follows it, in a text from `x` up to `y`. -/
structure Frames (o : Outline) (j k b inside c w d x y : Nat) (e : Edit) : Prop where
  front : x ≤ o.start (labelStart o k)
  apart : Apart o (o.start (labelStart o k))
  lt : o.start (labelStart o k) < o.stop (d - 1)
  head : Frame o (k + 1) b (o.start (labelStart o k)) e.start
  inner : Frame o inside c e.stop (o.stop (c - 1))
  tail : Frame o w d (o.stop (c - 1)) (o.stop (d - 1))
  rest : Frame o d j (o.stop (d - 1)) y

theorem Frame.frames {x y : Nat} {f : Edit} (hf : Frame o i j x y) (hs : o.Scripted) (hp : o.Placed)
    (hik : i ≤ k) (hdj : d ≤ j) (hk : isLoopWord o k) (hg : Governs o k b c w d)
    (he : Entered o b (bodyOf o b (c - 1)).inside c f) :
    Frames o j k b (bodyOf o b (c - 1)).inside c w d x y f := by
  have hle := hg.le hs.toSettled
  have hj := hf.within
  have hparted := hg.parted hs hk
  have hlabel := labelStart_le o k
  have hi := hf.seam.labels k hik hk
  have hstart := (hf.covers (labelStart o k) hi (by omega)).1
  have hbody := hp.start_le_start (show labelStart o k ≤ b by omega) (by omega)
  have hpos := hp.start_lt_stop (show labelStart o k < o.size by omega)
  have hlast := hp.stop_le_stop (show labelStart o k ≤ d - 1 by omega) (by omega)
  have hc : c - 1 + 1 = c := by omega
  have hd : d - 1 + 1 = d := by omega
  have hbodyEnd : Apart o (o.stop (c - 1)) := (hc ▸ hparted.bodyEnd).apart_stop hp (by omega)
  have hloopEnd : Apart o (o.stop (d - 1)) := (hd ▸ hparted.loopEnd).apart_stop hp (by omega)
  have hapart := (Seam.at_loop hs hk).apart_start hp (by omega)
  refine ⟨hstart, hapart, by omega, ?_, ?_, ?_, ?_⟩
  · refine ⟨Nat.le_trans hbody he.front, by omega, fun n hn hnb => ⟨?_, ?_⟩, hparted.head, hapart,
      he.left⟩
    · exact hp.start_le_start (by omega) (by omega)
    · exact Nat.le_trans (hp.stop_le_start hnb (by omega)) he.front
  · exact ⟨he.stop_le, by omega, fun n hn hnc =>
      ⟨he.inside n hn hnc, hp.stop_le_stop (by omega) (by omega)⟩, hparted.inside, he.right,
      hbodyEnd⟩
  · exact ⟨hp.stop_le_stop (by omega) (by omega), by omega, fun n hn hnd =>
      ⟨hp.stop_le_start (by omega) (by omega), hp.stop_le_stop (by omega) (by omega)⟩,
      hparted.tail, hbodyEnd, hloopEnd⟩
  · exact ⟨(hf.covers (d - 1) (by omega) (by omega)).2, hj, fun n hn hnj =>
      ⟨hp.stop_le_start (by omega) (by omega), (hf.covers n (by omega) hnj).2⟩,
      hparted.loopEnd, hloopEnd, hf.right⟩

theorem of_bodyOf_single {first last last' : Nat} (h : bodyOf o b last' = .single first last) :
    first = b ∧ last = last' := by
  unfold bodyOf at h
  split at h
  · cases h
  · cases h
  · cases h
    exact ⟨rfl, rfl⟩

/-- What is inside a body with the guard in front of it, and with the brace behind it that it may
need. -/
theorem Entered.layout {es : List Edit}
    (h : Layout ((bodyOf o b (c - 1)).entry o options n).stop (o.stop (c - 1)) es)
    (he : Entered o b (bodyOf o b (c - 1)).inside c ((bodyOf o b (c - 1)).entry o options n)) :
    Layout ((bodyOf o b (c - 1)).entry o options n).start (o.stop (c - 1))
      ((bodyOf o b (c - 1)).entry o options n :: es ++ (bodyOf o b (c - 1)).exit o) := by
  have hentry := h.cons he.kind he.le he.lt
  generalize hbody : bodyOf o b (c - 1) = body at hentry
  cases body with
  | block => exact hentry.append (.nil (Nat.le_refl _))
  | empty => exact hentry.append (.nil (Nat.le_refl _))
  | single first last =>
    obtain ⟨rfl, rfl⟩ := of_bodyOf_single hbody
    exact hentry.concat (hbody ▸ he.lt) _

section

variable (hs : o.Scripted) (hp : o.Placed)

include hs hp

/-- The edits of a nest are in order. -/
theorem Nest.Holds.layout {x y : Nat} (h : Holds o i j t) (hf : Frame o i j x y) (options : Options)
    (n : Nat) : Layout x y (t.edits o options n x y) := by
  induction h generalizing x y n with
  | none => exact layout_consoleBetween hp hf.le hf.right
  | @loop i j k b c w d head inner tail rest hik hfree hk hg hh hi ht hr ihh ihi iht ihr =>
    have he := hg.entered hs hp hk options (n + 1)
    have hframes := hf.frames hs hp hik (hr.le hs.toSettled) hk hg he
    have hinner := ihi hframes.inner (n + 1 + head.loops.length)
    have hbody := (ihh hframes.head (n + 1)).append (he.layout hinner)
    have htail := iht hframes.tail (n + 1 + head.loops.length + inner.loops.length)
    have hrest := ihr hframes.rest
      (n + 1 + head.loops.length + inner.loops.length + tail.loops.length)
    have hloop := (hbody.append htail).enclose hframes.lt (counterText (n + 1)) " \x7d"
    exact ((layout_consoleBetween hp hframes.front hframes.apart).append hloop).append hrest

end

/-- The console heads in a text with a loop stand in its parts: none is where the guard goes. -/
theorem consoleBetween_split {x y inside : Nat} {f : Edit} (hp : o.Placed)
    (h : Frames o j k b inside c w d x y f) (he : Entered o b inside c f) :
    consoleBetween o options x y = consoleBetween o options x (o.start (labelStart o k))
      ++ consoleBetween o options (o.start (labelStart o k)) f.start
      ++ consoleBetween o options f.stop (o.stop (c - 1))
      ++ consoleBetween o options (o.stop (c - 1)) (o.stop (d - 1))
      ++ consoleBetween o options (o.stop (d - 1)) y := by
  have hhead := Nat.le_trans h.front h.head.le
  have hinner := Nat.le_trans hhead (Nat.le_trans he.le h.inner.le)
  have hplain : consoleBetween o options f.start f.stop = [] := by
    refine List.filter_eq_nil_iff.mpr fun g hg hat => ?_
    obtain ⟨m, hm, hstart, -⟩ := mem_consoleEdits hg
    have hrange := Edit.startsBetween_iff.mp hat
    have hbehind := he.plain m hm (by omega)
    omega
  have hentry : consoleBetween o options x f.start = consoleBetween o options x f.stop := by
    rw [← consoleBetween_append hp hhead he.le, hplain, List.append_nil]
  rw [consoleBetween_append hp h.front h.head.le, hentry,
    consoleBetween_append hp (Nat.le_trans hhead he.le) h.inner.le,
    consoleBetween_append hp hinner h.tail.le,
    consoleBetween_append hp (Nat.le_trans hinner h.tail.le) h.rest.le]

/-! ### The text of a nest -/

/-- A body written down as its edits say: `b` is where it ends. -/
theorem LoopBody.write_eq {body : LoopBody} {head inner : Nat → Nat → List Char}
    (hempty : ∀ s, body = .empty s → inner (o.stop s) b = [])
    (hlast : ∀ first last, body = .single first last → o.stop last = b) :
    body.write o options n a b head inner = head a (body.entry o options n).start
      ++ ((body.entry o options n).text.toList ++ inner (body.entry o options n).stop b
        ++ patch o.source b b (body.exit o)) := by
  cases body with
  | block opener => simp [LoopBody.write, LoopBody.entry, LoopBody.exit, patch, Edit.openAt]
  | empty s => simp [LoopBody.write, LoopBody.entry, LoopBody.exit, patch, hempty s rfl]
  | single first last =>
    simp [LoopBody.write, LoopBody.entry, LoopBody.exit, patch, hlast first last rfl, Edit.openAt,
      Edit.closeAt]

theorem Nest.Holds.eq_none (h : Holds o i i t) (hs : o.Settled) : t = .none := by
  cases h with
  | none => rfl
  | loop hik _ _ hg _ _ _ hr =>
    have hle := hg.le hs
    have hle' := hr.le hs
    omega

@[simp] theorem plainText_self : plainText o options a a = [] := by
  have hnone : consoleBetween o options a a = [] := by
    refine List.filter_eq_nil_iff.mpr fun f _ hf => ?_
    have := Edit.startsBetween_iff.mp hf
    omega
  simp [plainText, hnone, patch]

theorem empty_of_bodyOf {s last : Nat} (h : bodyOf o b last = .empty s) : s = b ∧ o.is b ";" := by
  unfold bodyOf at h
  split at h
  · cases h
  · next ht =>
    cases h
    exact ⟨rfl, beq_iff_eq.mpr ht⟩
  · cases h

/-- An empty body has nothing inside. -/
theorem Governs.inner_of_empty {s : Nat} {inner : Nest} (hg : Governs o k b c w d) (hs : o.Scripted)
    (hi : inner.Holds o (bodyOf o b (c - 1)).inside c) (hbody : bodyOf o b (c - 1) = .empty s) :
    o.stop s = o.stop (c - 1) ∧ inner = .none := by
  obtain ⟨rfl, hsemi⟩ := empty_of_bodyOf hbody
  have hspan := (hg.body.statementSpan hs rfl).symm.trans (Outline.statementSpan_of_empty hsemi)
  have hc : c - 1 = s := Option.some.inj hspan
  have hlt := (hg.le hs.toSettled).2.1
  obtain rfl : c = s + 1 := by omega
  rw [hbody] at hi
  exact ⟨by rw [hc], hi.eq_none hs.toSettled⟩

theorem Entered.patch {es : List Edit}
    (h : Layout ((bodyOf o b (c - 1)).entry o options n).stop (o.stop (c - 1)) es) :
    patch o.source (o.stop (c - 1)) ((bodyOf o b (c - 1)).entry o options n).start
        ((bodyOf o b (c - 1)).entry o options n :: es ++ (bodyOf o b (c - 1)).exit o)
      = ((bodyOf o b (c - 1)).entry o options n).text.toList
        ++ Edit.patch o.source (o.stop (c - 1)) ((bodyOf o b (c - 1)).entry o options n).stop es
        ++ Edit.patch o.source (o.stop (c - 1)) (o.stop (c - 1)) ((bodyOf o b (c - 1)).exit o) := by
  have hexit : Spaced (o.stop (c - 1)) (o.stop (c - 1)) ((bodyOf o b (c - 1)).exit o) := by
    cases hbody : bodyOf o b (c - 1) with
    | block => exact Nat.le_refl _
    | empty => exact Nat.le_refl _
    | single first last =>
      obtain ⟨rfl, rfl⟩ := of_bodyOf_single hbody
      exact ⟨Nat.le_refl _, Nat.le_refl _, Nat.le_refl _⟩
  rw [List.cons_append, Edit.patch, slice_self, Edit.patch_append h.spaced hexit, List.nil_append,
    List.append_assoc]

section

variable (hs : o.Scripted) (hp : o.Placed)

include hs hp

/-- Carrying out the edits of a nest writes it down. -/
theorem Nest.Holds.patch_edits {x y : Nat} (h : Holds o i j t) (hf : Frame o i j x y) (n : Nat) :
    patch o.source y x (t.edits o options n x y) = t.write o options n x y := by
  induction h generalizing x y n with
  | none => rfl
  | @loop i j k b c w d head inner tail rest hik hfree hk hg hh hi ht hr ihh ihi iht ihr =>
    have he := hg.entered hs hp hk options (n + 1)
    have hframes := hf.frames hs hp hik (hr.le hs.toSettled) hk hg he
    have hplain : Layout x _ (consoleBetween o options x (o.start (labelStart o k))) :=
      layout_consoleBetween hp hframes.front hframes.apart
    have hhead := hh.layout hs hp hframes.head options (n + 1)
    have hinner := hi.layout hs hp hframes.inner options (n + 1 + head.loops.length)
    have hbody := he.layout hinner
    have htail := ht.layout hs hp hframes.tail options
      (n + 1 + head.loops.length + inner.loops.length)
    have hrest := hr.layout hs hp hframes.rest options
      (n + 1 + head.loops.length + inner.loops.length + tail.loops.length)
    have hall := (hhead.append hbody).append htail
    have hloop := hall.enclose hframes.lt (counterText (n + 1)) " \x7d"
    rw [Nest.edits, (hplain.append hloop).patch_append hrest, hplain.patch_append hloop,
      hall.patch_enclose, (hhead.append hbody).patch_append htail, hhead.patch_append hbody,
      Entered.patch hinner, ihh hframes.head, ihi hframes.inner, iht hframes.tail, ihr hframes.rest,
      Nest.write, LoopBody.write_eq (fun s hs' => ?_) (fun first last hl => ?_)]
    · simp only [plainText, List.append_assoc]
    · obtain ⟨hstop, rfl⟩ := hg.inner_of_empty hs hi hs'
      rw [hstop, Nest.write, plainText_self]
    · rw [(of_bodyOf_single hl).2]

end

end Scratchpad.Script
