import Scratchpad.Proofs.Script.Heads
import Scratchpad.Proofs.Script.Span

/-!
Nests of loops. In a script in which every word of a loop heads a loop statement, or ends a `do`
loop, the loops stand in each other or behind each other: a loop has the loops in its head, those in its
body and those in the condition at its end. The loops that are guarded are those of the nest.
-/
namespace Scratchpad.Script

open Outline (Throughout)

/-- The loops in a stretch of tokens. The first of them comes with the last token of its body, the
loops in its head, in its body and in what is left of it behind that, and the loops that follow. -/
inductive Nest where
  | none
  | loop (l : Loop) (bodyLast : Nat) (head inner tail rest : Nest)
deriving DecidableEq, Repr

namespace Nest

/-- The loops in the order of their first words. -/
def loops : Nest → List Loop
  | none => []
  | loop l _ head inner tail rest => l :: (head.loops ++ inner.loops ++ tail.loops ++ rest.loops)

def append : Nest → Nest → Nest
  | none, t => t
  | loop l bodyLast head inner tail rest, t => loop l bodyLast head inner tail (rest.append t)

end Nest

/-- The first token inside of a body. -/
def LoopBody.inside : LoopBody → Nat
  | .block opener => opener + 1
  | .empty semicolon => semicolon + 1
  | .single first _ => first

/-- Not a word of a loop. -/
def IsFree (o : Outline) (k : Nat) : Prop := isLoopWord o k = false

/-- A passage in which each word of a loop heads a loop statement or ends a `do` loop. -/
abbrev LoopPassage (o : Outline) : Role → Nat → Nat → Prop :=
  Passage o (IsFree o) (fun k => isLoopWord o k)

section

variable (o : Outline)

/-- What the first word `k` of a loop governs: a body from `b` up to `c`, behind which the loop goes
on at `w`, and all that stands in front of `d`. -/
inductive Governs (k : Nat) : Nat → Nat → Nat → Nat → Prop where
  | headed {b c} (hw : o.isAny k ["for", "while"]) (hp : LoopPassage o (.group "(") (k + 1) b)
      (hb : LoopPassage o .statement b c) : Governs k b c c c
  | awaited {b c} (hw : o.is k "for") (ha : o.is (k + 1) "await")
      (hp : LoopPassage o (.group "(") (k + 2) b) (hb : LoopPassage o .statement b c) :
    Governs k b c c c
  | doWhile {c d e} (hw : o.is k "do") (hb : LoopPassage o .statement (k + 1) c)
      (ht : o.is c "while") (hp : LoopPassage o (.group "(") (c + 1) e)
      (hd : d = if o.is e ";" then e + 1 else e) : Governs k (k + 1) c (c + 1) d

/-- The nest has the loops of the tokens from `i` up to `j`: no other word of a loop stands there
but the `while` at the end of a `do` loop. -/
inductive Nest.Holds : Nat → Nat → Nest → Prop where
  | none {i j} (hij : i ≤ j) (h : Throughout (IsFree o) i j) : Holds i j .none
  | loop {i j k b c w d head inner tail rest} (hik : i ≤ k)
      (hfree : Throughout (IsFree o) i k) (hk : isLoopWord o k)
      (hg : Governs o k b c w d) (hh : Holds (k + 1) b head)
      (hi : Holds (bodyOf o b (c - 1)).inside c inner) (ht : Holds w d tail) (hr : Holds d j rest) :
    Holds i j (.loop ⟨labelStart o k, d - 1, bodyOf o b (c - 1)⟩ (c - 1) head inner tail rest)

end

variable {o : Outline} {i j k b c w d n m : Nat} {t t' : Nest} {p : Role} {text : String}

/-- The words of loops. -/
theorem text_of_isLoopWord (h : isLoopWord o k) : o.text k ∈ ["for", "while", "do"] := by
  simp only [isLoopWord, Bool.and_eq_true, Outline.isAny, List.contains_iff_mem] at h
  exact h.1.1

theorem lt_size_of_isLoopWord (h : isLoopWord o k) : k < o.size :=
  Outline.lt_size fun he => by
    have hmem := text_of_isLoopWord h
    rw [he] at hmem
    exact absurd hmem (by decide)

theorem not_isLoopWord (h : o.is k text) (ht : ["for", "while", "do"].contains text = false) :
    IsFree o k := by
  refine Bool.eq_false_iff.mpr fun hw => ?_
  have hmem := text_of_isLoopWord hw
  rw [beq_iff_eq.mp h, ← List.contains_iff_mem, ht] at hmem
  cases hmem

theorem free_of_isName (h : o.isName k) : IsFree o k := by
  refine Bool.eq_false_iff.mpr fun hw => ?_
  have hmem := text_of_isLoopWord hw
  have hkey : ["for", "while", "do"].all isKeyword := by decide
  simp [Outline.isName, List.all_eq_true.mp hkey _ hmem] at h

section

variable (hs : o.Settled)

include hs

/-- The tokens that a loop governs stand in their order. -/
theorem Governs.le (h : Governs o k b c w d) :
    k < b ∧ b < c ∧ c ≤ w ∧ w ≤ c + 1 ∧ w ≤ d ∧ c ≤ d ∧ d ≤ o.size := by
  cases h with
  | headed hw hp hb =>
    have hle := (hp.even hs).le
    have hlt := hb.lt hs
    have hsize := (hb.even hs).within
    omega
  | awaited hw ha hp hb =>
    have hle := (hp.even hs).le
    have hlt := hb.lt hs
    have hsize := (hb.even hs).within
    omega
  | @doWhile _ _ e hw hb ht hp hd =>
    have hle := (hp.even hs).le
    have hlt := hb.lt hs
    have hsize := (hp.even hs).within
    have hd' : e ≤ d ∧ d ≤ o.size := by
      rw [hd]
      split
      · next hsemi => exact ⟨Nat.le_succ e, Outline.lt_size_of_is hsemi (by decide)⟩
      · exact ⟨Nat.le_refl e, hsize⟩
    omega

theorem bodyOf_inside (h : Governs o k b c w d) :
    b ≤ (bodyOf o b (c - 1)).inside ∧ (bodyOf o b (c - 1)).inside ≤ c ∧
      Throughout (IsFree o) b (bodyOf o b (c - 1)).inside := by
  have hlt := (h.le hs).2.1
  unfold bodyOf
  split
  · next ht =>
    exact ⟨Nat.le_succ b, hlt, .token (not_isLoopWord (beq_iff_eq.mpr ht) (by decide))⟩
  · next ht =>
    exact ⟨Nat.le_succ b, hlt, .token (not_isLoopWord (beq_iff_eq.mpr ht) (by decide))⟩
  · exact ⟨Nat.le_refl b, Nat.le_of_lt hlt, .nil⟩

end

namespace Nest

theorem Holds.le (h : Holds o i j t) (hs : o.Settled) : i ≤ j := by
  induction h with
  | none hij => exact hij
  | loop hik _ _ hg _ _ _ _ _ _ _ ihr =>
    have hle := hg.le hs
    omega

/-- In front of a nest there may be tokens without loops. -/
theorem Holds.behind (h : Holds o j k t) (hij : i ≤ j) (hf : Throughout (IsFree o) i j) :
    Holds o i k t := by
  cases h with
  | none hjk hfree => exact .none (Nat.le_trans hij hjk) (hf.append hfree)
  | loop hjk hfree hk hg hh hi ht hr =>
    exact .loop (Nat.le_trans hij hjk) (hf.append hfree) hk hg hh hi ht hr

/-- The nest is the same without the tokens in front of its first loop. -/
theorem Holds.within (h : Holds o i k t) (hij : i ≤ j) (hjk : j ≤ k)
    (hf : Throughout (IsFree o) i j) :
    Holds o j k t := by
  cases h with
  | none hik hfree => exact .none hjk fun n hn => hfree n (Nat.le_trans hij hn)
  | @loop _ _ l _ _ _ _ _ _ _ _ hil hfree hl hg hh hi ht hr =>
    have hjl : j ≤ l := by
      refine Nat.le_of_not_lt fun hlt => ?_
      have hnot : isLoopWord o l = false := hf l hil hlt
      rw [hl] at hnot
      cases hnot
    exact .loop hjl (fun n hn => hfree n (Nat.le_trans hij hn)) hl hg hh hi ht hr

theorem Holds.append (h : Holds o i j t) (h' : Holds o j k t') : Holds o i k (t.append t') := by
  induction h with
  | none hij hfree => exact h'.behind hij hfree
  | loop hik hfree hk hg hh hi ht _ _ _ _ ihr => exact .loop hik hfree hk hg hh hi ht (ihr h')

end Nest

theorem Governs.exists_nest (hg : Governs o k b c w d) (hs : o.Settled) (hk : isLoopWord o k)
    (hh : ∃ t, Nest.Holds o (k + 1) b t) (hi : ∃ t, Nest.Holds o b c t)
    (ht : ∃ t, Nest.Holds o w d t) : ∃ t, Nest.Holds o k d t := by
  obtain ⟨head, hh⟩ := hh
  obtain ⟨inner, hi⟩ := hi
  obtain ⟨tail, ht⟩ := ht
  obtain ⟨hb, hc, hf⟩ := bodyOf_inside hs hg
  exact ⟨_, .loop (Nat.le_refl k) .nil hk hg hh (hi.within hb hc hf) ht
    (.none (Nat.le_refl d) .nil)⟩

/-- The loops in a passage make a nest. -/
theorem Passage.exists_nest (h : LoopPassage o p i j) (hs : o.Settled) :
    ∃ t, Nest.Holds o i j t := by
  have hword {k : Nat} {text : String} (h : o.is k text)
      (ht : ["for", "while", "do"].contains text = false) : Nest.Holds o k (k + 1) .none :=
    .none (Nat.le_succ k) (.token (not_isLoopWord h ht))
  have hnone {k : Nat} : ∃ t, Nest.Holds o k k t := ⟨.none, .none (Nat.le_refl k) .nil⟩
  have happend {i j k : Nat} (h : ∃ t, Nest.Holds o i j t) (h' : ∃ t, Nest.Holds o j k t) :
      ∃ t, Nest.Holds o i k t := by
    obtain ⟨t, ht⟩ := h
    obtain ⟨t', ht'⟩ := h'
    exact ⟨_, ht.append ht'⟩
  have hbehind {k j : Nat} {text : String} (hw : o.is k text) (h : ∃ t, Nest.Holds o (k + 1) j t)
      (ht : ["for", "while", "do"].contains text = false) : ∃ t, Nest.Holds o k j t :=
    happend ⟨.none, .none (Nat.le_succ k) (.token (not_isLoopWord hw ht))⟩ h
  induction h with
  | nil | noHandler | noFinish => exact hnone
  | token _ hf _ _ _ ih =>
    obtain ⟨t, ht⟩ := ih
    exact ⟨t, ht.behind (Nat.le_succ _) (.token hf)⟩
  | row _ ih | block _ ih | simple _ _ _ ih => exact ih
  | piece _ _ ih ih' => exact happend ih ih'
  | rows _ _ _ ih ihs ih' => exact happend (happend ih ihs) ih'
  | @group a i c ho h hc ih =>
    have hopen : ["for", "while", "do"].contains a = false := by
      rcases Token.isOpener_iff.mp (Token.isOpener_of_closer? hc) with rfl | rfl | rfl <;> decide
    have hclose : ["for", "while", "do"].contains (o.text c) = false := by
      have hcloser := Token.isCloser_of_closer? hc
      simp only [Token.isCloser, Bool.or_eq_true, beq_iff_eq] at hcloser
      rcases hcloser with (hc | hc) | hc <;> rw [hc] <;> decide
    exact happend (hbehind ho ih hopen) (hbehind (beq_self_eq_true (o.text c)) hnone hclose)
  | empty h => exact hbehind h hnone (by decide)
  | ifThen hw _ _ _ ihp ihb | withObject hw _ _ ihp ihb | switch hw _ _ ihp ihb
  | handlerOf hw _ _ ihp ihb => exact hbehind hw (happend ihp ihb) (by decide)
  | ifElse hw _ _ he _ ihp ihb ihb' =>
    exact hbehind hw (happend (happend ihp ihb) (hbehind he ihb' (by decide))) (by decide)
  | headed hl hw hp hb ihp ihb =>
    exact (Governs.headed hw hp hb).exists_nest hs hl ihp ihb hnone
  | awaited hl hw ha hp hb ihp ihb =>
    exact (Governs.awaited hw ha hp hb).exists_nest hs hl (hbehind ha ihp (by decide)) ihb hnone
  | doWhile hl hw hb ht hp he ihb ihp =>
    refine (Governs.doWhile hw hb ht hp he).exists_nest hs hl hnone ihb ?_
    rw [he]
    split
    · next hsemi => exact happend ihp (hbehind hsemi hnone (by decide))
    · exact ihp
  | tried hw _ _ _ ihb ihh ihf => exact hbehind hw (happend (happend ihb ihh) ihf) (by decide)
  | handler hw _ ih | finish hw _ ih => exact hbehind hw ih (by decide)
  | labelled hn hc _ ih =>
    obtain ⟨t, ht⟩ := hbehind hc ih (by decide)
    exact ⟨t, ht.behind (Nat.le_succ _) (.token (free_of_isName hn))⟩

/-! ### The loops that are guarded -/

/-- Which `while`s end a `do` loop matters for the words that are looked at alone. -/
theorem loopsFrom_congr {tr tr' ks : List Nat} (h : ∀ k ∈ ks, tr.contains k = tr'.contains k) :
    loopsFrom o tr ks = loopsFrom o tr' ks := by
  induction ks generalizing tr tr' with
  | nil => rfl
  | cons k ks ih =>
    obtain ⟨hk, hks⟩ := List.forall_mem_cons.mp h
    have hcons (w : Nat) : loopsFrom o (w :: tr) ks = loopsFrom o (w :: tr') ks :=
      ih fun n hn => by rw [List.contains_cons, List.contains_cons, hks n hn]
    simp only [loopsFrom, hk, ih hks, hcons]

theorem loopsFrom_free {tr : List Nat} (hij : i ≤ j) (hjn : j ≤ n) (h : Throughout (IsFree o) i j) :
    loopsFrom o tr (Outline.upTo i n) = loopsFrom o tr (Outline.upTo j n) := by
  induction hm : j - i generalizing i with
  | zero =>
    obtain rfl : i = j := by omega
    rfl
  | succ m ih =>
    have hfree : isLoopWord o i = false := h i (Nat.le_refl i) (by omega)
    rw [Outline.upTo_cons (by omega), loopsFrom, if_pos (by simp [hfree])]
    exact ih (by omega) (fun k hk => h k (by omega)) (by omega)

theorem headedLoop_eq (hs : o.Scripted) (hb : LoopPassage o .statement b c)
    (hh : ∃ e hke, b = e + 1 ∧ o.loopHeadEnd k = some ⟨e, hke⟩) :
    headedLoop o k = some ⟨labelStart o k, c - 1, bodyOf o b (c - 1)⟩ := by
  obtain ⟨e, hke, rfl, he⟩ := hh
  obtain ⟨⟨last, hlast⟩, hspan, heq⟩ := Option.map_eq_some_iff.mp (hb.statementSpan hs rfl)
  obtain rfl : last = c - 1 := heq
  simp [headedLoop, he, hspan]

theorem doLoop_eq (hs : o.Scripted) {e : Nat} (hb : LoopPassage o .statement (k + 1) c)
    (ht : o.is c "while") (hp : LoopPassage o (.group "(") (c + 1) e)
    (hd : d = if o.is e ";" then e + 1 else e) :
    doLoop o k = some (⟨labelStart o k, d - 1, bodyOf o (k + 1) (c - 1)⟩, c) := by
  obtain ⟨⟨last, hlast⟩, hspan, heq⟩ := Option.map_eq_some_iff.mp (hb.statementSpan hs rfl)
  obtain rfl : last = c - 1 := heq
  have hpos : c - 1 + 1 = c := by have := hb.lt hs.toSettled; omega
  rw [← hpos] at ht hp
  obtain ⟨he, htail⟩ := hp.doLoopTail hs.toSettled ht
  have hlast : (if o.is e ";" then e else e - 1) = d - 1 := by
    rw [hd]
    split <;> rfl
  simp [doLoop, hspan, htail, hlast, hpos]

/-- What is listed for the first word of a loop. -/
theorem Governs.listed (hg : Governs o k b c w d) (hs : o.Scripted) :
    o.is k "do" = false ∧ w = c ∧
        headedLoop o k = some ⟨labelStart o k, d - 1, bodyOf o b (c - 1)⟩ ∨
      o.is k "do" ∧ w = c + 1 ∧ o.is c "while" ∧
        doLoop o k = some (⟨labelStart o k, d - 1, bodyOf o b (c - 1)⟩, c) := by
  cases hg with
  | headed hw hp hb =>
    have hdo : o.is k "do" = false := by
      refine Bool.eq_false_iff.mpr fun hdo => ?_
      rw [Outline.isAny, beq_iff_eq.mp hdo] at hw
      exact absurd hw (by decide)
    exact .inl ⟨hdo, rfl, headedLoop_eq hs hb (hp.loopHeadEnd hs.toSettled (.inl rfl))⟩
  | awaited hw ha hp hb =>
    have hdo : o.is k "do" = false := by
      rw [Outline.is, beq_iff_eq.mp hw]
      rfl
    exact .inl ⟨hdo, rfl, headedLoop_eq hs hb (hp.loopHeadEnd hs.toSettled (.inr ⟨hw, ha, rfl⟩))⟩
  | doWhile hw hb ht hp hd => exact .inr ⟨hw, rfl, ht, doLoop_eq hs hb ht hp hd⟩

/-- The loops of a nest are those that are guarded, whatever `while`s elsewhere are left out. -/
theorem Nest.Holds.loopsFrom (h : Holds o i j t) (hs : o.Scripted) {tr : List Nat}
    (htr : ∀ x ∈ tr, x < i ∨ j ≤ x) (hjn : j ≤ n) :
    Script.loopsFrom o tr (Outline.upTo i n)
      = t.loops ++ Script.loopsFrom o tr (Outline.upTo j n) := by
  induction h generalizing tr with
  | none hij hfree => exact loopsFrom_free hij hjn hfree
  | @loop i j k b c w d head inner tail rest hik hfree hk hg hh hi ht hr ihh ihi iht ihr =>
    have hle := hg.le hs.toSettled
    have hdj := hr.le hs.toSettled
    obtain ⟨hb, hc, hbfree⟩ := bodyOf_inside hs.toSettled hg
    have hnot : tr.contains k = false := by
      refine Bool.eq_false_iff.mpr fun hmem => ?_
      have := htr k (List.contains_iff_mem.mp hmem)
      omega
    have hstep : ¬ (tr.contains k || !isLoopWord o k) := by
      rw [hnot, hk]
      decide
    rw [loopsFrom_free hik (by omega) hfree, Outline.upTo_cons (by omega : k < n),
      Script.loopsFrom, if_neg hstep]
    -- behind the first word the head, the body and the rest of the loop are gone through in turn
    have hinside {tr' : List Nat} (htr' : ∀ x ∈ tr', x < i ∨ c ≤ x) :
        Script.loopsFrom o tr' (Outline.upTo (k + 1) n)
          = head.loops ++ inner.loops ++ Script.loopsFrom o tr' (Outline.upTo c n) := by
      have houtside {x : Nat} (hx : x ∈ tr') : x < i ∨ c ≤ x := htr' x hx
      rw [ihh (fun x hx => by have := houtside hx; omega) (by omega),
        loopsFrom_free hb (by omega) hbfree,
        ihi (fun x hx => by have := houtside hx; omega) (by omega), List.append_assoc]
    have hbehind {tr' : List Nat} (htr' : ∀ x ∈ tr', x < w ∨ j ≤ x) :
        Script.loopsFrom o tr' (Outline.upTo w n)
          = tail.loops ++ rest.loops ++ Script.loopsFrom o tr' (Outline.upTo j n) := by
      have houtside {x : Nat} (hx : x ∈ tr') : x < w ∨ j ≤ x := htr' x hx
      rw [iht (fun x hx => by have := houtside hx; omega) (by omega),
        ihr (fun x hx => by have := houtside hx; omega) hjn, List.append_assoc]
    rcases hg.listed hs with ⟨hdo, rfl, hloop⟩ | ⟨hdo, rfl, hwhile, hloop⟩
    · rw [if_neg (by simp [hdo]), hloop, hinside fun x hx => by have := htr x hx; omega,
        hbehind fun x hx => by have := htr x hx; omega]
      simp [Nest.loops]
    · have hcongr : Script.loopsFrom o (c :: tr) (Outline.upTo j n)
          = Script.loopsFrom o tr (Outline.upTo j n) := by
        refine loopsFrom_congr fun x hx => ?_
        have hne : x ≠ c := by have := (Outline.mem_upTo.mp hx).1; omega
        rw [List.contains_cons, beq_eq_false_iff_ne.mpr hne, Bool.false_or]
      rw [if_pos hdo, hloop]
      dsimp only
      rw [hinside (List.forall_mem_cons.mpr ⟨.inr (Nat.le_refl c),
          fun x hx => by have := htr x hx; omega⟩),
        Outline.upTo_cons (by omega : c < n), Script.loopsFrom, if_pos (by simp),
        hbehind (List.forall_mem_cons.mpr ⟨.inl (Nat.lt_succ_self c),
          fun x hx => by have := htr x hx; omega⟩), hcongr]
      simp [Nest.loops]

end Scratchpad.Script
