import Scratchpad.Proofs.Script.Passage
import Scratchpad.Proofs.Script.Reading
import Scratchpad.Proofs.Token.Matching

/-!
The span of a statement. What the span is asked for is where the statement ends that starts at a
token: for the statements of the grammar it is their last token. A label has to be a name for that;
behind a word that is a keyword here the span reads one simple statement, colon and all.
-/

namespace Scratchpad

namespace Outline

open Script

variable {o : Outline} {i c e k : Nat} {w : String}

theorem lt_size_of_is (h : o.is i w) (hw : w ≠ "") : i < o.size :=
  lt_size (by rwa [beq_iff_eq.mp h])

theorem closingOf?_eq_some {hic : i < c} :
    o.closingOf? i w = some ⟨c, hic⟩ ↔ o.is i w ∧ o.closing? i = some ⟨c, hic⟩ := by
  rw [closingOf?]
  split
  · next h => simp [h]
  · next h => simp [h]

/-! ### The equations of the span, one for each kind of statement -/

section

variable {hic : i < c}

theorem statementSpan_of_block (hw : o.is i "\x7b") (hc : o.closingOf? i "\x7b" = some ⟨c, hic⟩) :
    (o.statementSpan i).map Subtype.val = some c := by
  have ht := beq_iff_eq.mp hw
  rw [closingOf?, if_pos hw] at hc
  rw [statementSpan, dif_pos (lt_size_of_is hw (by decide))]
  simp [ht, hc]

theorem statementSpan_of_empty (hw : o.is i ";") :
    (o.statementSpan i).map Subtype.val = some i := by
  have ht := beq_iff_eq.mp hw
  rw [statementSpan, dif_pos (lt_size_of_is hw (by decide))]
  simp [ht]

end

section

variable {hic : i + 1 < c} (hc : o.closingOf? (i + 1) "(" = some ⟨c, hic⟩)

include hc

theorem statementSpan_of_if (hw : o.is i "if")
    (hb : (o.statementSpan (c + 1)).map Subtype.val = some e) :
    (o.statementSpan i).map Subtype.val
      = if o.is (e + 1) "else" then (o.statementSpan (e + 2)).map Subtype.val else some e := by
  have ht := beq_iff_eq.mp hw
  obtain ⟨⟨e, he⟩, hspan, rfl⟩ := Option.map_eq_some_iff.mp hb
  rw [statementSpan, dif_pos (lt_size_of_is hw (by decide))]
  simp only [ht, hc, hspan]
  split
  · rw [Option.map_map]
    rfl
  · rfl

theorem statementSpan_of_with (hw : o.is i "with") :
    (o.statementSpan i).map Subtype.val = (o.statementSpan (c + 1)).map Subtype.val := by
  have ht := beq_iff_eq.mp hw
  rw [statementSpan, dif_pos (lt_size_of_is hw (by decide))]
  simp only [ht, hc, Option.map_map]
  rfl

theorem statementSpan_of_switch (hw : o.is i "switch") :
    (o.statementSpan i).map Subtype.val = (o.closingOf? (c + 1) "\x7b").map Subtype.val := by
  have ht := beq_iff_eq.mp hw
  rw [statementSpan, dif_pos (lt_size_of_is hw (by decide))]
  simp only [ht, hc, Option.map_map]
  rfl

end

theorem statementSpan_of_head {hic : i < c} (hw : o.isAny i ["for", "while"])
    (hc : o.loopHeadEnd i = some ⟨c, hic⟩) :
    (o.statementSpan i).map Subtype.val = (o.statementSpan (c + 1)).map Subtype.val := by
  have hlt : i < o.size := lt_size fun he => by
    rw [isAny, he] at hw
    exact absurd hw (by decide)
  rw [statementSpan, dif_pos hlt]
  simp only [isAny, List.contains_iff_mem, List.mem_cons, List.not_mem_nil, or_false] at hw
  rcases hw with ht | ht
  all_goals
    simp only [ht, hc, Option.map_map]
    rfl

theorem statementSpan_of_do (hw : o.is i "do")
    (hb : (o.statementSpan (i + 1)).map Subtype.val = some e) :
    (o.statementSpan i).map Subtype.val = (o.doLoopTail e).map fun t => t.2.val := by
  have ht := beq_iff_eq.mp hw
  obtain ⟨⟨e, he⟩, hspan, rfl⟩ := Option.map_eq_some_iff.mp hb
  rw [statementSpan, dif_pos (lt_size_of_is hw (by decide))]
  simp only [ht, hspan, Option.map_map]
  rfl

/-- The last token of a `try` statement in front of its `finally`; the tried block ends with
`tried`. -/
def handlerEnd (o : Outline) (tried : Nat) : Option Nat :=
  if o.is (tried + 1) "catch" then
    if o.is (tried + 2) "(" then
      (o.closing? (tried + 2)).bind fun c => (o.closingOf? (c.val + 1) "\x7b").map Subtype.val
    else (o.closingOf? (tried + 2) "\x7b").map Subtype.val
  else some tried

/-- The last token of a `try` statement that goes on behind `caught` with its `finally` or not at
all. -/
def finishEnd (o : Outline) (caught : Nat) : Option Nat :=
  if o.is (caught + 1) "finally" then (o.closingOf? (caught + 2) "\x7b").map Subtype.val
  else some caught

theorem tryEnd_eq : (o.tryEnd i).map Subtype.val = (o.closingOf? (i + 1) "\x7b").bind fun t =>
    (o.handlerEnd t.val).bind o.finishEnd := by
  unfold tryEnd handlerEnd
  cases o.closingOf? (i + 1) "\x7b" with
  | none => rfl
  | some t =>
    have hfinish {e : Nat} (h : i ≤ e) : Option.map Subtype.val
        (if o.is (e + 1) "finally" then (o.closingOf? (e + 2) "\x7b").bind fun c =>
          some (⟨c.val, by omega⟩ : { e : Nat // i ≤ e })
        else some ⟨e, h⟩) = o.finishEnd e := by
      unfold finishEnd
      split
      · cases o.closingOf? (e + 2) "\x7b" <;> rfl
      · rfl
    simp only [Option.bind_eq_bind, Option.bind_some]
    split
    · split
      · cases o.closing? (t.val + 2) with
        | none => rfl
        | some c =>
          simp only [Option.bind_some]
          cases o.closingOf? (c.val + 1) "\x7b" with
          | none => rfl
          | some e => exact hfinish _
      · cases o.closingOf? (t.val + 2) "\x7b" with
        | none => rfl
        | some e => exact hfinish _
    · exact hfinish _
theorem statementSpan_of_try (hw : o.is i "try") :
    (o.statementSpan i).map Subtype.val = (o.tryEnd i).map Subtype.val := by
  have ht := beq_iff_eq.mp hw
  rw [statementSpan, dif_pos (lt_size_of_is hw (by decide))]
  simp only [ht]

/-- A token that is none of the words and marks that the span asks for. -/
theorem statementSpan_of_other (hi : i < o.size) (hw : o.isAny i statementHeads = false) :
    (o.statementSpan i).map Subtype.val
      = if o.isName i && o.is (i + 1) ":" then (o.statementSpan (i + 2)).map Subtype.val
        else (o.simpleStatementEnd i i (Nat.le_refl i)).map Subtype.val := by
  simp only [isAny, statementHeads, List.contains_eq_mem, decide_eq_false_iff_not, List.mem_cons,
    List.not_mem_nil, or_false, not_or] at hw
  rw [statementSpan, dif_pos hi]
  split
  case h_10 =>
    simp only [isName, Bool.and_right_comm]
    split
    · rw [Option.map_map]
      rfl
    · rfl
  -- the words and marks that are asked for one by one
  all_goals simp_all

/-! ### Simple statements -/

/-- A token that closes nothing is an even stretch, with the group that it starts if it opens
one. -/
theorem Settled.even_past (h : o.Settled) (hi : i < o.size)
    (hc : Token.isCloser (o.text i) = false) :
    o.Even i (o.pastOrAll i).val := by
  cases ho : o.isOpener i with
  | true =>
    obtain ⟨c, hic, hlt, hclosing, heven, hm⟩ := h.closing_of_opener hi ho
    have hpast : (o.pastOrAll i).val = c + 1 := by simp [pastOrAll, past, ho, hclosing]
    rw [hpast]
    exact h.group heven hlt hm
  | false =>
    have hpast : (o.pastOrAll i).val = i + 1 := by simp [pastOrAll, past, ho]
    rw [hpast]
    exact .token hi (isPlain hi ho hc)

/-- No group ends with a semicolon. -/
theorem Settled.not_semicolon_past (h : o.Settled) (he : o.Even i (o.pastOrAll i).val)
    (hs : o.is i ";" = false) : o.is ((o.pastOrAll i).val - 1) ";" = false := by
  have hlt := (o.pastOrAll i).property
  have hlast : (o.pastOrAll i).val - 1 + 1 = (o.pastOrAll i).val := by omega
  refine Bool.eq_false_iff.mpr fun hsemi => ?_
  have hne : i ≠ (o.pastOrAll i).val - 1 := fun heq => by
    rw [← heq, hs] at hsemi
    cases hsemi
  rw [← hlast] at he
  have hle := (h.past_of_even (he.front (by omega) (isPlain_of_semicolon hsemi)) (by omega)).1
  omega

theorem simpleStatementEnd_of_semicolon {start : Nat} {h : start ≤ i} (hs : o.is i ";") :
    (o.simpleStatementEnd start i h).map Subtype.val = some i := by
  rw [simpleStatementEnd, if_pos hs]
  rfl

theorem simpleStatementEnd_of_closer {start : Nat} {h : start ≤ i} (hs : start < i)
    (hc : Token.isCloser (o.text i)) :
    (o.simpleStatementEnd start i h).map Subtype.val = some (i - 1) := by
  have hsemi : o.is i ";" = false := by
    refine Bool.eq_false_iff.mpr fun hsemi => ?_
    rw [beq_iff_eq.mp hsemi] at hc
    exact absurd hc (by decide)
  rw [simpleStatementEnd, if_neg (by simp [hsemi]), if_pos hc, dif_pos hs]
  rfl

/-- A token or bracket group is passed; what follows it belongs to the statement or does not. -/
theorem Settled.simpleStatementEnd_of_piece (hset : o.Settled) {start n : Nat} {h : start ≤ i}
    (he : o.Even i k) (hik : i < k) (hs : o.is i ";" = false) (hn : (o.pastOrAll i).val = n) :
    ∃ h' : start ≤ n, (o.simpleStatementEnd start i h).map Subtype.val
      = if n < o.size ∧ o.continues (n - 1) n then (o.simpleStatementEnd start n h').map Subtype.val
        else some (n - 1) := by
  subst hn
  refine ⟨Nat.le_trans h (Nat.le_of_lt (o.pastOrAll i).property), ?_⟩
  have hcloser := hset.not_isCloser he hik
  cases ho : o.isOpener i with
  | true =>
    obtain ⟨c, hic, -, hclosing, -⟩ := hset.closing_of_even he hik ho
    have hpast : (o.pastOrAll i).val = c + 1 := by simp [pastOrAll, past, ho, hclosing]
    rw [simpleStatementEnd]
    simp only [hs, hcloser, ho, hclosing, hpast, Bool.false_eq_true, if_false, if_true,
      Option.map_some,
      Nat.add_sub_cancel]
    split
    · next hlt =>
      simp only [hlt, true_and]
      split <;> rfl
    · next hge => simp only [hge, false_and, if_false, Option.map_some]
  | false =>
    have hpast : (o.pastOrAll i).val = i + 1 := by simp [pastOrAll, past, ho]
    rw [simpleStatementEnd]
    simp only [hs, hcloser, ho, hpast, Bool.false_eq_true, if_false, Nat.add_sub_cancel]
    split
    · next hlt =>
      simp only [hlt, true_and]
      split <;> rfl
    · next hge => simp only [hge, false_and, if_false, Option.map_some]

end Outline

namespace Script

variable {o : Outline} {free loop : Nat → Prop} {i j k e : Nat}

/-- The end of a run is found from everywhere in it. -/
theorem Runs.simpleStatementEnd (h : Runs o i j) (hs : o.Settled) (hik : i ≤ k) (hkj : k < j)
    (he : o.Even i k) : (o.simpleStatementEnd i k hik).map Subtype.val = some (j - 1) := by
  induction hm : j - k using Nat.strongRecOn generalizing k with
  | ind m ih =>
    have hrest := h.even.behind he (Nat.le_of_lt hkj)
    cases hsemi : o.is k ";" with
    | true =>
      rw [Outline.simpleStatementEnd_of_semicolon hsemi]
      rcases Nat.eq_or_lt_of_le (Nat.succ_le_of_lt hkj) with rfl | hlt
      · rfl
      · have hplain := he.append (even_of_is hsemi (by decide))
        have hgoes := (h.goesOn (k + 1) (by omega) hlt hplain).1
        rw [Nat.add_sub_cancel, hsemi] at hgoes
        cases hgoes
    | false =>
      obtain ⟨hle, hpast⟩ := hs.past_of_even hrest hkj
      have hlt := (o.pastOrAll k).property
      have hlast := hs.not_semicolon_past hpast hsemi
      obtain ⟨h', heq⟩ := hs.simpleStatementEnd_of_piece (h := hik) hrest hkj hsemi rfl
      generalize (o.pastOrAll k).val = n at hle hpast hlt hlast h' heq
      rw [heq]
      have hfront := he.append hpast
      rcases Nat.lt_or_eq_of_le hle with hnj | rfl
      · have hgoes := (h.goesOn n (by omega) hnj hfront).2
        rw [if_pos ⟨by have := h.even.within; omega, hgoes⟩]
        exact ih (j - n) (by omega) h' hnj hfront rfl
      · split
        · next hgo =>
          -- the run goes on by the line break rule, so the bracket behind it is what stops it
          rcases h.stops with hsemi' | hsize | hcloser | hends
          · rw [hlast] at hsemi'
            cases hsemi'
          · omega
          · exact Outline.simpleStatementEnd_of_closer h.lt hcloser
          · rw [hgo.2] at hends
            cases hends
        · rfl

/-- The word that heads a loop, or `await` behind it, stands in front of the bracket that ends the
head. -/
theorem Passage.loopHeadEnd (hs : o.Settled) {b : Nat}
    (hb : b = i + 1 ∨ o.is i "for" ∧ o.is (i + 1) "await" ∧ b = i + 2)
    (hp : Passage o free loop (.group "(") b j) :
    ∃ c hic, j = c + 1 ∧ o.loopHeadEnd i = some ⟨c, hic⟩ := by
  obtain ⟨c, hbc, rfl, hc⟩ := hp.closingOf? hs
  have hbracket : o.is b "(" := by
    cases hp with
    | group ho => exact ho
  have hib : i < c := by rcases hb with rfl | ⟨-, -, rfl⟩ <;> omega
  refine ⟨c, hib, rfl, ?_⟩
  rcases hb with rfl | ⟨hfor, hawait, rfl⟩
  · have hawait : o.is (i + 1) "await" = false := by
      rw [Outline.is, beq_iff_eq.mp hbracket]
      decide
    rw [Outline.loopHeadEnd, if_neg (by simp [hawait]), hc]
    rfl
  · rw [Outline.loopHeadEnd, if_pos (by simp [hfor, hawait]), hc]
    rfl

theorem Passage.doLoopTail (hs : o.Settled) (ht : o.is (e + 1) "while")
    (hp : Passage o free loop (.group "(") (e + 2) k) :
    ∃ he, o.doLoopTail e = some (e + 1, ⟨if o.is k ";" then k else k - 1, he⟩) := by
  obtain ⟨c, hec, rfl, hc⟩ := hp.closingOf? hs
  refine ⟨by split <;> omega, ?_⟩
  rw [Outline.doLoopTail, if_pos ht]
  simp only [hc]
  split <;> rfl

theorem Passage.handlerEnd {t : Nat} (hs : o.Settled) (h : Passage o free loop .handler (t + 1) k) :
    o.handlerEnd t = some (k - 1) := by
  unfold Outline.handlerEnd
  cases h with
  | noHandler _ hw => rw [if_neg (by simp [hw]), Nat.add_sub_cancel]
  | handler hw hb =>
    have hbrace : o.is (t + 2) "(" = false := by
      cases hb with
      | group ho =>
        rw [Outline.is, beq_iff_eq.mp ho]
        rfl
    obtain ⟨u, htu, rfl, hu⟩ := hb.closingOf? hs
    rw [if_pos hw, if_neg (by simp [hbrace]), hu]
    rfl
  | handlerOf hw hp hb =>
    obtain ⟨c, htc, rfl, hc⟩ := hp.closingOf? hs
    obtain ⟨u, hcu, rfl, hu⟩ := hb.closingOf? hs
    obtain ⟨ho, hc⟩ := Outline.closingOf?_eq_some.mp hc
    rw [if_pos hw, if_pos ho, hc, Option.bind_some, hu]
    rfl

theorem Passage.finishEnd {c : Nat} (hs : o.Settled) (h : Passage o free loop .finish (c + 1) e) :
    o.finishEnd c = some (e - 1) := by
  unfold Outline.finishEnd
  cases h with
  | noFinish _ hw => rw [if_neg (by simp [hw]), Nat.add_sub_cancel]
  | finish hw hb =>
    obtain ⟨u, hcu, rfl, hu⟩ := hb.closingOf? hs
    rw [if_pos hw, hu]
    rfl

theorem Passage.tryEnd (hs : o.Settled) (hb : Passage o free loop (.group "\x7b") (i + 1) j)
    (hh : Passage o free loop .handler j k) (hf : Passage o free loop .finish k e) :
    (o.tryEnd i).map Subtype.val = some (e - 1) := by
  obtain ⟨t, hit, rfl, ht⟩ := hb.closingOf? hs
  obtain ⟨c, rfl⟩ : ∃ c, k = c + 1 :=
    Nat.exists_eq_add_of_le' (Nat.le_of_add_left_le (hh.even hs).le)
  rw [Outline.tryEnd_eq, ht, Option.bind_some, hh.handlerEnd hs, Option.bind_some,
    Nat.add_sub_cancel, hf.finishEnd hs]

theorem not_head_of_isName (hs : o.Scripted) (h : o.isName i) :
    o.isAny i statementHeads = false := by
  refine Bool.eq_false_iff.mpr fun hw => ?_
  have hmark := not_punctual_of_isName hs h
  simp only [Outline.isName, Bool.and_eq_true, Bool.not_eq_true'] at h
  have hnot : ¬ (isPunctual (o.text i) ∨ isKeyword (o.text i)) := by simp [hmark, h.2]
  have hall : statementHeads.all fun w => isPunctual w || isKeyword w := by decide
  exact hnot (by simpa using List.all_eq_true.mp hall _ (List.contains_iff_mem.mp hw))

/-- The span of a statement ends with its last token. -/
theorem Passage.statementSpan (hs : o.Scripted) {p : Role} (h : Passage o free loop p i j)
    (hp : p = .statement) : (o.statementSpan i).map Subtype.val = some (j - 1) := by
  induction h with
  | block hb =>
    obtain ⟨c, hic, rfl, hc⟩ := hb.closingOf? hs.toSettled
    rw [Outline.statementSpan_of_block (Outline.closingOf?_eq_some.mp hc).1 hc, Nat.add_sub_cancel]
  | empty h => rw [Outline.statementSpan_of_empty h, Nat.add_sub_cancel]
  | @ifThen i j k hw hg hb he _ ihb =>
    obtain ⟨c, hic, rfl, hc⟩ := hg.closingOf? hs.toSettled
    have hpos : k - 1 + 1 = k := by have := hb.lt hs.toSettled; omega
    rw [Outline.statementSpan_of_if hc hw (ihb rfl), hpos, if_neg (by simp [he])]
  | @ifElse i j k l hw hg hb he hb' _ ihb ihb' =>
    obtain ⟨c, hic, rfl, hc⟩ := hg.closingOf? hs.toSettled
    have hpos : k - 1 + 1 = k := by have := hb.lt hs.toSettled; omega
    have hnext : k - 1 + 2 = k + 1 := by omega
    rw [Outline.statementSpan_of_if hc hw (ihb rfl), hpos, if_pos he, hnext, ihb' rfl]
  | headed _ hw hg _ _ ihb =>
    obtain ⟨c, hic, rfl, hc⟩ := hg.loopHeadEnd hs.toSettled (.inl rfl)
    rw [Outline.statementSpan_of_head hw hc, ihb rfl]
  | @awaited i _ _ _ hw ha hg _ _ ihb =>
    obtain ⟨c, hic, rfl, hc⟩ := hg.loopHeadEnd hs.toSettled (.inr ⟨hw, ha, rfl⟩)
    have hword : o.isAny i ["for", "while"] := by
      rw [Outline.isAny, beq_iff_eq.mp hw]
      decide
    rw [Outline.statementSpan_of_head hword hc, ihb rfl]
  | @doWhile i j k l _ hw hb ht hg he ihb =>
    have hpos : j - 1 + 1 = j := by have := hb.lt hs.toSettled; omega
    have hnext : j + 1 = j - 1 + 2 := by omega
    rw [← hpos] at ht
    rw [hnext] at hg
    obtain ⟨hlast, htail⟩ := hg.doLoopTail hs.toSettled ht
    rw [Outline.statementSpan_of_do hw (ihb rfl), htail, he, Option.map_some]
    split <;> rfl
  | withObject hw hg _ _ ihb =>
    obtain ⟨c, hic, rfl, hc⟩ := hg.closingOf? hs.toSettled
    rw [Outline.statementSpan_of_with hc hw, ihb rfl]
  | switch hw hg hb =>
    obtain ⟨c, hic, rfl, hc⟩ := hg.closingOf? hs.toSettled
    obtain ⟨e, hce, rfl, he⟩ := hb.closingOf? hs.toSettled
    rw [Outline.statementSpan_of_switch hc hw, he, Option.map_some, Nat.add_sub_cancel]
  | tried hw hb hh hf => rw [Outline.statementSpan_of_try hw, hb.tryEnd hs.toSettled hh hf]
  | @labelled i _ hn hc _ ihb =>
    have hlt := Outline.lt_size_of_is hc (by decide)
    rw [Outline.statementSpan_of_other (Nat.lt_of_succ_lt hlt) (not_head_of_isName hs hn),
      if_pos (by simp [hn, hc]), ihb rfl]
  | @simple i j hst _ hr =>
    simp only [startsSimple, Bool.and_eq_true, Bool.not_eq_true'] at hst
    rw [Outline.statementSpan_of_other (Nat.lt_of_lt_of_le hr.lt hr.even.within) hst.1,
      if_neg (by simp [hst.2]), hr.simpleStatementEnd hs.toSettled (Nat.le_refl i) hr.lt
        (.nil (Nat.le_trans hr.even.le hr.even.within))]
  | _ => cases hp

/-- What a run is made of so far: nothing ends it in front of `k`. -/
structure Under (o : Outline) (i k : Nat) : Prop where
  le : i ≤ k
  even : o.Even i k
  goesOn : ∀ n, i < n → n ≤ k → o.Even i n → o.is (n - 1) ";" = false ∧ o.continues (n - 1) n

theorem Under.exists_runs (hs : o.Settled) (h : Under o i k) (hk : k < o.size)
    (hc : Token.isCloser (o.text k) = false) : ∃ j, Runs o i j := by
  induction hm : o.size - k using Nat.strongRecOn generalizing k with
  | ind m ih =>
    cases hsemi : o.is k ";" with
    | true =>
      refine ⟨k + 1, by have := h.le; omega, h.even.append (even_of_is hsemi (by decide)), ?_,
        .inl hsemi⟩
      exact fun n hn hn' => h.goesOn n hn (Nat.le_of_lt_succ hn')
    | false =>
      have hkn := (o.pastOrAll k).property
      have heven := hs.even_past hk hc
      have hlast := hs.not_semicolon_past heven hsemi
      have hinside : ∀ l, k < l → l < (o.pastOrAll k).val → ¬ o.Even k l := fun l hl hln he =>
        Nat.not_le.mpr hln (hs.past_of_even he hl).1
      generalize (o.pastOrAll k).val = n at hkn heven hlast hinside
      have hall := h.even.append heven
      have hgoes : ∀ l, i < l → l < n → o.Even i l →
          o.is (l - 1) ";" = false ∧ o.continues (l - 1) l := by
        intro l hl hln hel
        rcases Nat.lt_or_ge k l with hkl | hlk
        · exact absurd (hel.behind h.even (Nat.le_of_lt hkl)) (hinside l hkl hln)
        · exact h.goesOn l hl hlk hel
      by_cases hgo : n < o.size ∧ Token.isCloser (o.text n) = false ∧ o.continues (n - 1) n
      · obtain ⟨hlt, hcloser, hcont⟩ := hgo
        refine ih (o.size - n) (by omega) ⟨by have := h.le; omega, hall, fun l hl hln hel => ?_⟩ hlt
          hcloser rfl
        rcases Nat.lt_or_eq_of_le hln with hln | rfl
        · exact hgoes l hl hln hel
        · exact ⟨hlast, hcont⟩
      · refine ⟨n, by have := h.le; omega, hall, hgoes, .inr ?_⟩
        rcases Nat.lt_or_eq_of_le hall.within with hlt | heq
        · refine .inr ?_
          cases hcloser : Token.isCloser (o.text n) with
          | true => exact .inl rfl
          | false => exact .inr (Bool.eq_false_iff.mpr fun hcont => hgo ⟨hlt, hcloser, hcont⟩)
        · exact .inl heq

/-- What does not start with a word that governs statements is read as a run. -/
theorem statementSpan_eq_iff_runs (hs : o.Settled) (hi : i < o.size)
    (hc : Token.isCloser (o.text i) = false) (hst : startsSimple o i) (hij : i < j) :
    (o.statementSpan i).map Subtype.val = some (j - 1) ↔ Runs o i j := by
  have hnil : o.Even i i := .nil (Nat.le_of_lt hi)
  have hrun {k : Nat} (h : Runs o i k) : (o.statementSpan i).map Subtype.val = some (k - 1) := by
    simp only [startsSimple, Bool.and_eq_true, Bool.not_eq_true'] at hst
    rw [Outline.statementSpan_of_other hi hst.1, if_neg (by simp [hst.2]),
      h.simpleStatementEnd hs (Nat.le_refl i) h.lt hnil]
  refine ⟨fun hspan => ?_, hrun⟩
  obtain ⟨k, hk⟩ := Under.exists_runs hs ⟨Nat.le_refl i, hnil, fun n hn hn' => by omega⟩ hi hc
  have heq := Option.some.inj (hspan.symm.trans (hrun hk))
  obtain rfl : j = k := by have := hk.lt; omega
  exact hk

/-- The bracket that closes another one stands behind it, whatever the tokens are. -/
theorem closing?_eq_partner? (x : Lexed) (ho : x.outline.isOpener i) :
    (x.outline.closing? i).map Subtype.val = x.outline.partner? i := by
  rw [Outline.closing?]
  split
  · next c hp =>
    obtain ⟨hne, -⟩ := Lexed.partner?_fits hp
    have hic : i < c := by
      refine Nat.lt_of_le_of_ne (Nat.le_of_not_lt fun hci => ?_) hne
      obtain ⟨-, hfits⟩ := Lexed.partner?_fits (Lexed.partner?_symm hp)
      obtain ⟨t, u, -, hu, -, -, hm⟩ := hfits hci
      have htext : x.outline.text i = u.text := by
        simp [Outline.text, Lexed.outline, hu]
      rw [Outline.isOpener, htext,
        Token.not_isOpener_of_isCloser (Token.isCloser_of_closer? hm)] at ho
      cases ho
    simp [hic, hp]
  · next hp => simp [hp]

/-- The span of every statement of a script without faults ends with its last token. Behind a label
that is a keyword here it does so if and only if the label, the colon and the statement make one run
of tokens, as if they were a simple statement. The span only ever goes on behind the bracket that
closes one it has come to, and in any row of tokens that bracket stands behind the other. -/
theorem statementSpan_of_statement {source : List Char}
    (hsource : (tokenize .script source).firstFault = none) :
    let o := (tokenize .script source).outline
    (∀ i j, Passage o (fun _ => True) (fun _ => True) .statement i j →
      (o.statementSpan i).map Subtype.val = some (j - 1)) ∧
    (∀ i j, o.isIdent i → isKeyword (o.text i) → o.isAny i statementHeads = false →
      o.is (i + 1) ":" → Passage o (fun _ => True) (fun _ => True) .statement (i + 2) j →
      ((o.statementSpan i).map Subtype.val = some (j - 1) ↔ Runs o i j)) ∧
    ∀ (x : Lexed) i, x.outline.isOpener i →
      (x.outline.closing? i).map Subtype.val = x.outline.partner? i := by
  intro o
  have hs : o.Scripted := Outline.scripted_tokenize (Option.or_eq_none_iff.mp hsource).2
  refine ⟨fun i j h => h.statementSpan hs rfl, fun i j hw hk hh hc h => ?_,
    fun x i => closing?_eq_partner? x⟩
  have hname : o.isName i = false := by simp [Outline.isName, hk]
  have hst : startsSimple o i := by simp [startsSimple, hh, hname]
  have hclose : Token.isCloser (o.text i) = false := by
    refine Bool.eq_false_iff.mpr fun hclose => ?_
    simp only [Token.isCloser, Bool.or_eq_true] at hclose
    have hmark := not_punctual_of_isIdent hs hw
    rcases hclose with (hclose | hclose) | hclose <;>
      exact absurd hclose (Bool.eq_false_iff.mp (Outline.is_eq_false hmark (by decide)))
  refine statementSpan_eq_iff_runs hs.toSettled ?_ hclose hst ?_
  · have := Outline.lt_size_of_is hc (by decide)
    omega
  · have := h.lt hs.toSettled
    omega

/-- A loop behind the label `of` is a statement; the span of the labelled one ends within it. -/
theorem statementSpan_of_statement_of_label :
    let o := (tokenize .script "of: while (a)\n\x7b\x7d\n".toList).outline
    (o.statementSpan 2).map Subtype.val = some 7 ∧
      (o.statementSpan 0).map Subtype.val ≠ some 7 := by
  intro o
  have hsource : (tokenize .script "of: while (a)\n\x7b\x7d\n".toList).firstFault = none := by
    decide +kernel
  obtain ⟨hspan, hlabel, -⟩ := statementSpan_of_statement hsource
  have hcondition : Passage o (fun _ => True) (fun _ => True) (.group "(") 3 6 :=
    .group (by decide +kernel)
      (.row (.token (by decide +kernel) trivial (by decide +kernel) (by decide +kernel)
        (.nil (by decide +kernel)))) (by decide +kernel)
  have hbody : Passage o (fun _ => True) (fun _ => True) (.group "\x7b") 6 8 :=
    .group (by decide +kernel) (.row (.nil (by decide +kernel))) (by decide +kernel)
  have hloop : Passage o (fun _ => True) (fun _ => True) .statement 2 8 :=
    .headed trivial (by decide +kernel) hcondition (.block hbody)
  refine ⟨hspan 2 8 hloop, fun hall => ?_⟩
  have hrun := (hlabel 0 8 (by decide +kernel) (by decide +kernel) (by decide +kernel)
    (by decide +kernel) hloop).mp hall
  -- the line break behind the bracket ends the run
  have hends : o.continues 5 6 = false := by decide +kernel
  have heven : o.Even 0 6 := ⟨by decide, by decide +kernel, by decide +kernel⟩
  rw [(hrun.goesOn 6 (by decide) (by decide) heven).2] at hends
  cases hends

end Script

end Scratchpad
