import Scratchpad.Proofs.Script.Reading
import Scratchpad.Proofs.Token.Exact
import Scratchpad.Script.Marker

/-!
The statement on the line of a marker. What a marker reports are the tokens in front of it on its
line: they start a statement and their brackets have their partners among them. They are this one
statement, and all of it, if no semicolon parts them and the next line does not go on with the last.
-/
namespace Scratchpad

open Token (settleAll)

namespace Outline

variable {o : Outline} {i j k n first last : Nat}

/-- What is open in front of a balanced stretch stays open through it. -/
theorem Settled.settles_of_balancedFrom (h : o.Settled) (ds : List String) {st fin : List String}
    (hin : i ≤ n) (hn : n ≤ o.size) (hall : settleAll (ds ++ st) (o.between i n) = some fin)
    (hb : o.balancedFrom ds.length (upTo i n)) : settleAll ds (o.between i n) = some [] := by
  -- `ds` is what the stretch itself has opened so far, and the scan that balances never looks below it
  induction hm : n - i generalizing i ds with
  | zero =>
    obtain rfl : i = n := by omega
    rw [upTo_nil (Nat.le_refl i), balancedFrom, decide_eq_true_eq] at hb
    obtain rfl := List.length_eq_zero_iff.mp hb
    rw [between_self]
    rfl
  | succ m ih =>
    have hi : i < o.size := by omega
    have hsplit : o.between i n = o.tokens[i] :: o.between (i + 1) n := by
      rw [← between_append (Nat.le_succ i) (by omega : i + 1 ≤ n), between_succ hi]
      rfl
    rw [hsplit, Token.settleAll_cons] at hall ⊢
    obtain ⟨mid, hmid, hrest⟩ := Option.bind_eq_some_iff.mp hall
    rw [upTo_cons (by omega), balancedFrom.eq_def] at hb
    dsimp only at hb
    rw [isOpener, text_eq hi] at hb
    have hpunct := h.punct _ (Array.getElem_mem_toList hi)
    rcases Token.settle_cases hmid with ⟨hplain, rfl⟩ | ⟨hk, ho, rfl⟩ | ⟨hk, s, hc, heq⟩
    · have hopener : Token.isOpener o.tokens[i].text = false :=
        Bool.eq_false_iff.mpr fun ho => Bool.eq_false_iff.mp (hplain (hpunct (.inl ho))).1 ho
      have hcloser : Token.isCloser o.tokens[i].text = false :=
        Bool.eq_false_iff.mpr fun hc => Bool.eq_false_iff.mp (hplain (hpunct (.inr hc))).2 hc
      rw [if_neg (by rw [hopener]; decide), if_neg (by rw [hcloser]; decide)] at hb
      rw [Token.settle_plain hplain, Option.bind_some]
      exact ih ds (by omega) hrest hb (by omega)
    · rw [if_pos ho] at hb
      rw [Token.settle_opener hk ho, Option.bind_some]
      exact ih (o.tokens[i].text :: ds) (by omega) hrest hb (by omega)
    · have hcloser := Token.isCloser_of_closer? hc
      rw [if_neg (by rw [Token.not_isOpener_of_isCloser hcloser]; decide), if_pos hcloser] at hb
      cases ds with
      | nil => cases hb
      | cons s' ds =>
        obtain ⟨rfl, rfl⟩ := List.cons.inj heq
        rw [Token.settle_closer hk hc, Option.bind_some]
        exact ih ds (by omega) hrest hb (by omega)

theorem Settled.even_of_balanced (h : o.Settled) (hle : first ≤ last) (hl : last < o.size)
    (hb : o.balanced first last) : o.Even first (last + 1) := by
  have hall := h.settles
  rw [← between_all, ← between_append (Nat.zero_le first) (by omega : first ≤ o.size),
    ← between_append (by omega : first ≤ last + 1) hl, Token.settleAll_append] at hall
  obtain ⟨stack, -, hall⟩ := Option.bind_eq_some_iff.mp hall
  rw [Token.settleAll_append] at hall
  obtain ⟨fin, hall, -⟩ := Option.bind_eq_some_iff.mp hall
  exact ⟨by omega, hl, h.settles_of_balancedFrom [] (by omega) hl hall hb⟩

section

variable (hs : o.is i ";" = false)

include hs

theorem pastStatement_of_continues (hn : (o.pastOrAll i).val = n) (hlt : n < o.size)
    (hc : o.continues (n - 1) n) : (o.pastStatement i).val = (o.pastStatement n).val := by
  subst hn
  rw [pastStatement, if_neg (by rw [hs]; decide)]
  simp only [hlt, hc, dif_pos, if_true]

theorem pastStatement_of_ends (hn : (o.pastOrAll i).val = n)
    (hc : n < o.size → o.continues (n - 1) n = false) : (o.pastStatement i).val = n := by
  subst hn
  rw [pastStatement, if_neg (by rw [hs]; decide)]
  dsimp only
  split
  · next hlt => rw [if_neg (by rw [hc hlt]; decide)]
  · rfl

end

theorem pastStatement_of_semicolon (hs : o.is i ";") : (o.pastStatement i).val = i + 1 := by
  rw [pastStatement, if_pos hs]

/-- A stretch with even brackets and without line breaks is a statement if and only if no semicolon
outside brackets parts it and what follows does not go on with it. -/
theorem Settled.pastStatement_eq_iff (h : o.Settled) (he : o.Even i (last + 1)) (hi : i ≤ last)
    (hline : ∀ k, i < k → k ≤ last → o.newlineBefore k = false) :
    (o.pastStatement i).val = last + 1 ↔
      (∀ k, i ≤ k → k < last → o.Even i k → o.is k ";" = false) ∧
        (o.is last ";" ∨ last + 1 = o.size ∨ o.continues last (last + 1) = false) := by
  induction hm : last - i using Nat.strongRecOn generalizing i with
  | ind m ih =>
    have hnil : o.Even i i := .nil (by have := he.within; omega)
    cases hs : o.is i ";" with
    | true =>
      rw [pastStatement_of_semicolon hs]
      constructor
      · intro hend
        obtain rfl : i = last := Nat.succ.inj hend
        exact ⟨fun k hk hk' => absurd hk' (Nat.not_lt.mpr hk), .inl hs⟩
      · rintro ⟨hnone, -⟩
        refine Decidable.byContradiction fun hne => ?_
        rw [hnone i (Nat.le_refl i) (by omega) hnil] at hs
        cases hs
    | false =>
      obtain ⟨hle, hpast⟩ := h.past_of_even he (Nat.lt_succ_of_le hi)
      have hlt : i < (o.pastOrAll i).val := (o.pastOrAll i).property
      generalize hn : (o.pastOrAll i).val = n at hle hpast hlt
      -- what stands outside brackets behind the group is what does behind its end
      have hskip : (∀ k, i ≤ k → k < last → o.Even i k → o.is k ";" = false) ↔
          ∀ k, n ≤ k → k < last → o.Even n k → o.is k ";" = false := by
        constructor
        · exact fun hnone k hk hk' heven => hnone k (by omega) hk' (hpast.append heven)
        · intro hnone k hk hk' heven
          rcases Nat.eq_or_lt_of_le hk with rfl | hk
          · exact hs
          · have hnk : n ≤ k := hn ▸ (h.past_of_even heven hk).1
            exact hnone k hnk hk' (heven.behind hpast hnk)
      by_cases hend : n = last + 1
      · subst hend
        -- the group reaches the end of the stretch, so its last token is no semicolon
        have hlast : o.is last ";" = false := by
          refine Bool.eq_false_iff.mpr fun hsemi => ?_
          rcases Nat.eq_or_lt_of_le hi with rfl | hi
          · rw [hsemi] at hs
            cases hs
          · have hfront := he.front (Nat.le_of_lt hi) (isPlain_of_semicolon hsemi)
            have hle := (h.past_of_even hfront hi).1
            omega
        have hnone : ∀ k, last + 1 ≤ k → k < last → o.Even (last + 1) k → o.is k ";" = false :=
          fun k hk hk' => by omega
        rw [hskip, hlast]
        by_cases hgoes : last + 1 < o.size ∧ o.continues last (last + 1)
        · rw [pastStatement_of_continues hs hn hgoes.1 hgoes.2]
          have hlt := (o.pastStatement (last + 1)).property
          simp [hgoes.2, Nat.ne_of_lt hgoes.1, Nat.ne_of_gt hlt]
        · have hends : last + 1 < o.size → o.continues last (last + 1) = false :=
            fun hlt => Bool.eq_false_iff.mpr fun hc => hgoes ⟨hlt, hc⟩
          rw [pastStatement_of_ends hs hn hends]
          refine ⟨fun _ => ⟨hnone, .inr ?_⟩, fun _ => rfl⟩
          rcases Nat.eq_or_lt_of_le he.within with heq | hlt
          · exact .inl heq
          · exact .inr (hends hlt)
      · have hcontinues : o.continues (n - 1) n := by
          simp [continues, hline n hlt (by omega)]
        rw [pastStatement_of_continues hs hn (by have := he.within; omega) hcontinues, hskip]
        exact ih (last - n) (by omega) (he.behind hpast hle) (by omega)
          (fun k hk hk' => hline k (by omega) hk') rfl

end Outline

namespace Script

open Instrument (Options debugClose)
open Text (Edit)

variable {o : Outline} {options : Options} {c : Comment} {first last : Nat} {e : Edit}

/-- The tokens on the line of a comment that end in front of it are those from `first` through
`last`. -/
structure Row (o : Outline) (c : Comment) (first last : Nat) : Prop where
  le : first ≤ last
  within : last < o.size
  line_first : o.line first = c.line
  line_last : o.line last = c.line
  stop_last : o.stop last ≤ c.start
  bounds : ∀ k < o.size, o.line k = c.line → o.stop k ≤ c.start → first ≤ k ∧ k ≤ last

theorem Row.of_lineBefore (h : lineBefore o.tokens c = some (first, last)) : Row o c first last := by
  obtain ⟨first', hfirst, h⟩ := Option.bind_eq_some_iff.mp h
  obtain ⟨⟨t, last'⟩, hlast, heq⟩ := Option.bind_eq_some_iff.mp h
  obtain ⟨rfl, rfl⟩ := Prod.mk.inj (Option.some.inj heq)
  obtain ⟨hlt, hline, hbefore⟩ := Array.findIdx?_eq_some_iff_getElem.mp hfirst
  have htoken {k : Nat} {u : Token} (hu : o.tokens[k]? = some u) :
      o.line k = u.line ∧ o.stop k = u.stop := by
    simp [Outline.line, Outline.stop, hu]
  obtain ⟨front, hfront⟩ := List.getLast?_eq_some_iff.mp hlast
  have hmem {u : Token} {k : Nat} : (u, k) ∈ front ++ [(t, last')] ↔
      o.tokens[k]? = some u ∧ u.line = c.line ∧ u.stop ≤ c.start := by
    rw [← hfront, List.mem_filter, List.mk_mem_zipIdx_iff_getElem?, Array.getElem?_toList,
      Bool.and_eq_true, decide_eq_true_eq, decide_eq_true_eq]
  have hrising : (front ++ [(t, last')]).Pairwise fun p q => p.2 < q.2 := by
    rw [← hfront]
    refine List.Pairwise.filter _ (List.pairwise_map.mp ?_)
    rw [List.zipIdx_map_snd]
    exact List.pairwise_lt_range'
  obtain ⟨hget, hlineLast, hstop⟩ := hmem.mp (List.mem_append_right _ List.mem_cons_self)
  have hbounds : ∀ k < o.size, o.line k = c.line → o.stop k ≤ c.start → first' ≤ k ∧ k ≤ last' := by
    intro k hk hline hstop
    have hget := Array.getElem?_eq_getElem hk
    rw [(htoken hget).1] at hline
    rw [(htoken hget).2] at hstop
    refine ⟨Nat.le_of_not_lt fun hlt => ?_, ?_⟩
    · exact hbefore k hlt (decide_eq_true hline)
    · rcases List.mem_append.mp (hmem.mpr ⟨hget, hline, hstop⟩) with hin | hin
      · exact Nat.le_of_lt ((List.pairwise_append.mp hrising).2.2 _ hin _ List.mem_cons_self)
      · exact Nat.le_of_eq (Prod.mk.inj (List.mem_singleton.mp hin)).2
  have hwithin : last' < o.size := (Array.getElem?_eq_some_iff.mp hget).1
  rw [← (htoken hget).1] at hlineLast
  rw [← (htoken hget).2] at hstop
  refine ⟨(hbounds last' hwithin hlineLast hstop).1, hwithin, ?_, hlineLast, hstop, hbounds⟩
  rw [(htoken (Array.getElem?_eq_getElem hlt)).1]
  simpa using hline

theorem Row.mem_iff (h : Row o c first last) (hp : o.Placed) {k : Nat} (hk : k < o.size) :
    (o.line k = c.line ∧ o.stop k ≤ c.start) ↔ (first ≤ k ∧ k ≤ last) := by
  refine ⟨fun ⟨hline, hstop⟩ => h.bounds k hk hline hstop, fun ⟨hfirst, hlast⟩ => ⟨?_, ?_⟩⟩
  · have hle := hp.line_le_line hfirst hk
    have hle' := hp.line_le_line hlast h.within
    rw [h.line_first] at hle
    rw [h.line_last] at hle'
    exact Nat.le_antisymm hle' hle
  · exact Nat.le_trans (hp.stop_le_stop hlast h.within) h.stop_last

/-- What a marker inserts behind or around the tokens in front of it. -/
inductive Report (o : Outline) (options : Options) (c : Comment) (first last : Nat) : Edit → Prop where
  | name {name : String} (hname : declaredName o first = some name) :
      Report o options c first last (.closeAt (o.stop last)
        (if o.is last ";" then s!" {options.debugCall c.line name};"
          else s!"; {options.debugCall c.line name};"))
  | opens : Report o options c first last (.openAt (o.start first) (options.debugOpen c.line))
  | closes {stop : Nat} (hstop : stop = if o.is last ";" then last - 1 else last)
      (hfirst : first ≤ stop) : Report o options c first last (.closeAt (o.stop stop) debugClose)

/-- A marker that is not ignored has a balanced row of tokens in front of it that starts a
statement. -/
theorem mem_markerEdits (h : e ∈ markerEdits o options c) : ∃ first last,
    lineBefore o.tokens c = some (first, last) ∧ o.startsStatement first ∧ o.balanced first last ∧
      Report o options c first last e := by
  unfold markerEdits at h
  split at h
  · cases h
  · next first last hrow =>
    dsimp only at h
    split at h
    · cases h
    · next hnot =>
      simp only [Bool.or_eq_true, not_or, Bool.not_eq_false, Bool.and_eq_true, decide_eq_true_eq,
        Bool.not_eq_true'] at hnot
      obtain ⟨⟨⟨hle, hstarts⟩, hbalanced⟩, hended⟩ := hnot
      refine ⟨first, last, hrow, hstarts, hbalanced, ?_⟩
      split at h
      · next name hname =>
        obtain rfl := List.mem_singleton.mp h
        exact .name hname
      · split at h
        · cases h
        · simp only [List.mem_cons, List.not_mem_nil, or_false] at h
          rcases h with rfl | rfl
          · exact .opens
          · refine .closes rfl ?_
            split
            · next hsemi =>
              have hne : last ≠ first := fun heq => hended ⟨hsemi, heq⟩
              omega
            · exact Nat.le_of_not_lt hle

/-- No line ends between two tokens of a script that stand on one line. -/
theorem newlineBefore_of_line {source : List Char} {k : Nat}
    (ho : o = (tokenize .script source).outline) (hk : k + 1 < o.size)
    (hline : o.line k = o.line (k + 1)) : o.newlineBefore (k + 1) = false := by
  subst ho
  have hp := placed_tokenize .script source
  have hk' := Nat.lt_of_succ_lt hk
  have hnone : '\n' ∉ Text.slice source ((tokenize .script source).outline.start k)
      ((tokenize .script source).outline.start (k + 1)) := fun hmem =>
    (hp.mem_slice_iff (Nat.le_succ k) hk).mp hmem hline
  rw [← Text.slice_append_slice (Nat.le_of_lt (hp.start_lt_stop hk'))
    (hp.stop_le_start (Nat.lt_succ_self k) hk), List.mem_append, not_or] at hnone
  have hstop : (tokenize .script source).outline.stop k = (tokenize .script source).tokens[k].stop := by
    rw [Outline.stop, Array.getElem?_eq_getElem hk']
    rfl
  have hstart : (tokenize .script source).outline.start (k + 1)
      = (tokenize .script source).tokens[k + 1].start := by
    rw [Outline.start, Array.getElem?_eq_getElem hk]
    rfl
  rw [hstop, hstart] at hnone
  have hgap : notesLine .script (Text.slice source (tokenize .script source).tokens[k].stop
      (tokenize .script source).tokens[k + 1].start) = false := by
    rw [notesLine, List.contains_eq_mem]
    exact decide_eq_false hnone.2
  have hnext := List.isChain_iff_getElem.mp (Lexed.heralds_tokenize .script source).next k hk
  rw [Outline.newlineBefore, Array.getElem?_eq_getElem hk]
  exact hnext.trans hgap

/-- A marker that is not ignored reports the tokens in front of it on its line, a semicolon at their end
left out; they start a statement and have the partners of their brackets among them. They are exactly
one statement if and only if no semicolon outside brackets parts them and the token behind them does
not go on with them. -/
theorem statementEnd_marked {source : List Char} (hsource : (tokenize .script source).firstFault = none)
    (he : markerEdits (tokenize .script source).outline options c ≠ []) :
    let o := (tokenize .script source).outline
    ∃ first last, first ≤ last ∧ last < o.size ∧
      (∀ k < o.size, (o.line k = c.line ∧ o.stop k ≤ c.start) ↔ (first ≤ k ∧ k ≤ last)) ∧
      o.startsStatement first ∧ o.Even first (last + 1) ∧
      (∀ e ∈ markerEdits o options c, Report o options c first last e) ∧
      (o.statementEnd first = last ↔
        (∀ k, first ≤ k → k < last → o.Even first k → o.is k ";" = false) ∧
          (o.is last ";" ∨ last + 1 = o.size ∨ o.continues last (last + 1) = false)) := by
  intro o
  have hsettled : o.Settled := Outline.settled_tokenize (Option.or_eq_none_iff.mp hsource).2
  obtain ⟨e, he⟩ := List.exists_mem_of_ne_nil _ he
  obtain ⟨first, last, hline, hstarts, hbalanced, -⟩ := mem_markerEdits he
  have hrow := Row.of_lineBefore hline
  have hp : o.Placed := placed_tokenize .script source
  have heven := hsettled.even_of_balanced hrow.le hrow.within hbalanced
  have hreport : ∀ e ∈ markerEdits o options c, Report o options c first last e := by
    intro e he
    obtain ⟨first', last', hline', -, -, hreport⟩ := mem_markerEdits he
    obtain ⟨rfl, rfl⟩ := Prod.mk.inj (Option.some.inj (hline'.symm.trans hline))
    exact hreport
  refine ⟨first, last, hrow.le, hrow.within, fun k hk => hrow.mem_iff hp hk, hstarts, heven, hreport,
    ?_⟩
  have hlines : ∀ k, first < k → k ≤ last → o.newlineBefore k = false := by
    intro k hk hk'
    obtain ⟨k, rfl⟩ := Nat.exists_eq_succ_of_ne_zero (Nat.ne_zero_of_lt hk)
    have hlt := Nat.lt_of_le_of_lt hk' hrow.within
    refine newlineBefore_of_line rfl hlt ?_
    have hfront := ((hrow.mem_iff hp (Nat.lt_of_succ_lt hlt)).mpr ⟨by omega, by omega⟩).1
    exact hfront.trans ((hrow.mem_iff hp hlt).mpr ⟨by omega, hk'⟩).1.symm
  rw [← hsettled.pastStatement_eq_iff heven hrow.le hlines, Outline.statementEnd]
  have hpos := (o.pastStatement first).property
  omega

/-- The report of a sum that goes on over the next line is written into the sum. -/
theorem statementEnd_marked_of_sum :
    let o := (tokenize .script "x = 1 //?\n  + 2\n".toList).outline
    let edits := markerEdits o {} ⟨"//?", 6, 9, 1⟩
    (tokenize .script "x = 1 //?\n  + 2\n".toList).firstFault = none ∧
      edits = [.closeAt 5 "; __livepad_debug(1, x);"] ∧ o.statementEnd 0 ≠ 2 := by
  intro o edits
  have hsource : (tokenize .script "x = 1 //?\n  + 2\n".toList).firstFault = none := by
    decide +kernel
  have hedits : edits = [.closeAt 5 "; __livepad_debug(1, x);"] := by decide +kernel
  obtain ⟨first, last, -, -, hrow, -, -, -, hend⟩ :=
    statementEnd_marked hsource (hedits ▸ List.cons_ne_nil _ _ : edits ≠ [])
  have hfirst := ((hrow 0 (by decide +kernel)).mp (by decide +kernel)).1
  have hlast := ((hrow 2 (by decide +kernel)).mp (by decide +kernel)).2
  have hnext : ¬ (first ≤ 3 ∧ 3 ≤ last) := (hrow 3 (by decide +kernel)).not.mp (by decide +kernel)
  obtain rfl : first = 0 := Nat.le_zero.mp hfirst
  obtain rfl : last = 2 := by omega
  refine ⟨hsource, hedits, fun heq => ?_⟩
  have hgoes : ¬ (o.is 2 ";" ∨ 2 + 1 = o.size ∨ o.continues 2 (2 + 1) = false) := by decide +kernel
  exact hgoes (hend.mp heq).2

end Script

end Scratchpad
