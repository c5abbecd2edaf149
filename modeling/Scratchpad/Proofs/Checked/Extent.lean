import Scratchpad.Proofs.Checked.Access
import Scratchpad.Proofs.Script.Span
import Scratchpad.Proofs.Typed.Annotation

/-!
How far statements and types reach, read with care: no token is asked for that is not there, and every
scan ends. A scan that starts at a token, or right behind the last one, comes no further than behind
the last one, so what it has passed over can be taken out.
-/
namespace Scratchpad

theorem Token.isQuote_of_piece {f : Bool} {c : Char} {r : List Char}
    (h : (lexeme .script f c r).piece = .token .string) : c = '"' ∨ c = '\'' := by
  have hfront : Front f .script c r (lexeme .script f c r) := front_lexeme
  generalize lexeme .script f c r = x at h hfront
  cases hfront with
  | blank | slashes | block => cases h
  | token =>
    have htold : Told f c r .script (tokenLexeme .script f c r) := told_tokenLexeme
    generalize tokenLexeme .script f c r = x at h htold
    cases htold with
    | quoted hc => exact hc
    | template | number | regex | slash | name | punct => cases h

/-! ### Statements -/

namespace Outline

variable {o : Outline} {i e : Nat}

/-- A string literal starts with its quote, which is one byte. -/
theorem quote_of_string (hcut : ∀ t ∈ o.tokens.toList, t.Cut .script) (h : o.kind? i = some .string) :
    ∃ c cs, (o.text i).toList = c :: cs ∧ Text.byteSize [c] = 1 := by
  obtain ⟨t, ht, hk⟩ := Option.map_eq_some_iff.mp h
  obtain ⟨hlt, rfl⟩ := Array.getElem?_eq_some_iff.mp ht
  obtain ⟨f, c, r, hpiece, htext⟩ := hcut _ (Array.getElem_mem_toList hlt)
  refine ⟨c, r.take (Token.lexeme .script f c r).more, ?_, ?_⟩
  · rw [text_eq hlt, htext, String.toList_ofList]
  · rcases Token.isQuote_of_piece (hk ▸ hpiece) with rfl | rfl <;> rfl

namespace Whole

theorem past_le (h : o.Whole) (hi : i < o.size) : (o.past i).val ≤ o.size := by
  unfold past
  split
  · split
    · next c hc hclosing => exact h.closing hclosing
    · exact hi
  · exact hi

theorem pastOrAll_le (h : o.Whole) (hi : i < o.size) : (o.pastOrAll i).val ≤ o.size := by
  unfold pastOrAll
  split
  · exact Nat.max_le.mpr ⟨Nat.le_refl _, hi⟩
  · exact h.past_le hi

theorem pastStatement_le (h : o.Whole) (hi : i < o.size) : (o.pastStatement i).val ≤ o.size := by
  fun_induction Outline.pastStatement o i with
  | case1 start hsemicolon => exact hi
  | case2 start hsemicolon next hn hpast hlt hcontinues rest hr hrest ih =>
    rw [hrest] at ih
    exact ih hlt
  | case3 start hsemicolon next hn hpast hlt hcontinues => exact Nat.le_of_lt hlt
  | case4 start hsemicolon next hn hpast hlt =>
    have hle := h.pastOrAll_le hi
    rwa [hpast] at hle

theorem closingOf?_lt (h : o.Whole) {w : String} {i : Nat} {c : { c : Nat // i < c }}
    (hc : o.closingOf? i w = some c) : c.val < o.size := by
  obtain ⟨c, hic⟩ := c
  exact h.closing (closingOf?_eq_some.mp hc).2

theorem simpleStatementEnd_lt (h : o.Whole) {start : Nat} {hs : start ≤ i} {e : { e : Nat // start ≤ e }}
    (hi : i < o.size) (he : o.simpleStatementEnd start i hs = some e) : e.val < o.size := by
  fun_induction Outline.simpleStatementEnd o start i hs with
  | case1 => exact Option.some.inj he ▸ hi
  | case2 => exact Option.some.inj he ▸ Nat.lt_of_le_of_lt (Nat.sub_le _ 1) hi
  | case3 | case4 => cases he
  | case5 i hs hsemicolon hcloser last? last hl hlast hlt hcontinues ih => exact ih hlt he
  | case6 i hs hsemicolon hcloser last? last hl hlast hlt =>
    exact Option.some.inj he ▸ Nat.lt_of_succ_lt hlt
  | case7 i hs hsemicolon hcloser last? last hl hlast hlt =>
    obtain rfl := Option.some.inj he
    dsimp only [last?] at hlast
    split at hlast
    · obtain ⟨⟨c, hic⟩, hclosing, hc⟩ := Option.map_eq_some_iff.mp hlast
      cases hc
      exact h.closing hclosing
    · cases hlast
      exact hi

theorem doLoopTail_lt (h : o.Whole) {w : Nat} {e : { e : Nat // i < e }}
    (he : o.doLoopTail i = some (w, e)) : e.val < o.size := by
  unfold doLoopTail at he
  split at he
  · split at he
    · next c hc hclosing =>
      split at he
      · next hsemicolon =>
        cases he
        exact lt_size_of_is hsemicolon (by decide)
      · have hlt := h.closingOf?_lt hclosing
        cases he
        exact hlt
    · cases he
  · cases he

theorem handlerEnd_lt (h : o.Whole) (hi : i < o.size) (he : o.handlerEnd i = some e) : e < o.size := by
  unfold handlerEnd at he
  split at he
  · split at he
    · obtain ⟨c, -, he⟩ := Option.bind_eq_some_iff.mp he
      obtain ⟨c, hc, rfl⟩ := Option.map_eq_some_iff.mp he
      exact h.closingOf?_lt hc
    · obtain ⟨c, hc, rfl⟩ := Option.map_eq_some_iff.mp he
      exact h.closingOf?_lt hc
  · exact Option.some.inj he ▸ hi

theorem tryEnd_lt (h : o.Whole) {e : { e : Nat // i ≤ e }} (he : o.tryEnd i = some e) :
    e.val < o.size := by
  have hval := congrArg (Option.map Subtype.val) he
  rw [tryEnd_eq] at hval
  obtain ⟨tried, htried, hval⟩ := Option.bind_eq_some_iff.mp hval
  obtain ⟨caught, hcaught, hval⟩ := Option.bind_eq_some_iff.mp hval
  unfold finishEnd at hval
  split at hval
  · obtain ⟨c, hc, hval⟩ := Option.map_eq_some_iff.mp hval
    exact hval ▸ h.closingOf?_lt hc
  · exact Option.some.inj hval ▸ h.handlerEnd_lt (h.closingOf?_lt htried) hcaught

theorem statementSpan_lt (h : o.Whole) {e : { e : Nat // i ≤ e }} (he : o.statementSpan i = some e) :
    e.val < o.size := by
  fun_induction Outline.statementSpan o i with
  | case1 i hi hblock =>
    obtain ⟨⟨c, hic⟩, hc, rfl⟩ := Option.map_eq_some_iff.mp he
    exact h.closing hc
  | case2 i hi => exact Option.some.inj he ▸ hi
  | case3 | case4 | case7 | case9 | case11 | case13 | case15 | case20 => cases he
  | case5 i hi hif c hic hc e' he' hthen helse ih ih' =>
    obtain ⟨last, hlast, rfl⟩ := Option.map_eq_some_iff.mp he
    exact ih' hlast
  | case6 i hi hif c hic hc e' he' hthen helse ih => exact Option.some.inj he ▸ ih hthen
  | case8 i hi hfor c hic hc ih | case10 i hi hwhile c hic hc ih | case12 i hi hwith c hic hc ih
  | case18 i hi _ _ _ _ _ _ _ _ _ hlabel ih =>
    obtain ⟨last, hlast, rfl⟩ := Option.map_eq_some_iff.mp he
    exact ih hlast
  | case14 i hi hdo e' he' hbody ih =>
    obtain ⟨tail, htail, rfl⟩ := Option.map_eq_some_iff.mp he
    exact h.doLoopTail_lt htail
  | case16 i hi hswitch c hic hc =>
    obtain ⟨e', hclosing, rfl⟩ := Option.map_eq_some_iff.mp he
    exact h.closingOf?_lt hclosing
  | case17 i hi htry => exact h.tryEnd_lt he
  | case19 i hi => exact h.simpleStatementEnd_lt hi he

theorem statementEnd_lt (h : o.Whole) (hi : i < o.size) : o.statementEnd i < o.size := by
  have hle := h.pastStatement_le hi
  have hlt := (o.pastStatement i).property
  rw [statementEnd]
  omega

end Whole

theorem le_statementEnd : i ≤ o.statementEnd i := by
  have hlt := (o.pastStatement i).property
  rw [statementEnd]
  omega

theorem lt_size_of_statementSpan {h : i ≤ e} (hs : o.statementSpan i = some ⟨e, h⟩) : i < o.size := by
  rw [statementSpan] at hs
  split at hs
  · assumption
  · cases hs

end Outline

namespace Checked

noncomputable section

def continues (o : Outline) (last next : Nat) : Option Bool :=
  reading o [last, next] (o.continues last next)

def startsStatement (o : Outline) (i : Nat) : Option Bool :=
  reading o [i - 1, i] (o.startsStatement i)

def statementTurn (o : Outline) (i : Nat) : Option (Turn Nat Nat) := do
  if o.is i ";" then return .done i
  let next ← reading o [i] (o.pastOrAll i).val
  if o.size ≤ next then return .done (next - 1)
  return if ← continues o (next - 1) next then .again next else .done (next - 1)

/-- The last token of the statement that starts at `start`. -/
def statementEnd (o : Outline) (start : Nat) : Option Nat := loop (statementTurn o) start

def topLevelTurn (o : Outline) (found : List (Nat × Nat)) (i : Nat) :
    Option (Turn (List (Nat × Nat) × Nat) (List (Nat × Nat))) := do
  if o.size ≤ i then return .done found
  let last ← statementEnd o i
  return .again (found ++ [(i, last)], last + 1)

def topLevelStatements (o : Outline) : Option (List (Nat × Nat)) :=
  loop (fun s => topLevelTurn o s.1 s.2) ([], 0)

/-- The bracket that ends the group at `i`, or the token there. -/
def groupEnd (o : Outline) (i : Nat) : Option Nat :=
  if o.isOpener i then (o.closing? i).map Subtype.val else some i

def simpleTurn (o : Outline) (start i : Nat) : Option (Turn Nat (Option Nat)) := do
  if ← reading o [i] (o.is i ";") then return .done (some i)
  if Token.isCloser (o.text i) then return .done (if start < i then some (i - 1) else none)
  match groupEnd o i with
  | none => return .done none
  | some last =>
    if o.size ≤ last + 1 then return .done (some last)
    return if ← continues o last (last + 1) then .again (last + 1) else .done (some last)

/-- What a statement that is read stands in: a conditional that may have another branch, or a loop
whose condition is behind it. -/
inductive Within where
  | conditional
  | loop

/-- A statement that is to be read, or the last token of the one that was. -/
inductive Reach where
  | statement (start : Nat)
  | ended (last : Option Nat)

/-- Reads what begins the statement at `start`. -/
def statementHead (o : Outline) (outer : List Within) (start : Nat) : Option (List Within × Reach) :=
  if o.size ≤ start then some (outer, .ended none)
  else match o.text start with
  | "\x7b" => some (outer, .ended ((o.closing? start).map Subtype.val))
  | ";" => some (outer, .ended (some start))
  | "if" =>
    match o.closingOf? (start + 1) "(" with
    | none => some (outer, .ended none)
    | some c => some (.conditional :: outer, .statement (c.val + 1))
  | "for" | "while" =>
    match o.loopHeadEnd start with
    | none => some (outer, .ended none)
    | some c => some (outer, .statement (c.val + 1))
  | "with" =>
    match o.closingOf? (start + 1) "(" with
    | none => some (outer, .ended none)
    | some c => some (outer, .statement (c.val + 1))
  | "do" => some (.loop :: outer, .statement (start + 1))
  | "switch" =>
    match o.closingOf? (start + 1) "(" with
    | none => some (outer, .ended none)
    | some c => some (outer, .ended ((o.closingOf? (c.val + 1) "\x7b").map Subtype.val))
  | "try" => some (outer, .ended ((o.tryEnd start).map Subtype.val))
  | head =>
    if o.isIdent start && o.is (start + 1) ":" && !Script.isKeyword head then
      some (outer, .statement (start + 2))
    else (loop (simpleTurn o start) start).map fun last => (outer, .ended last)

def spanTurn (o : Outline) : List Within → Reach → Option (Turn (List Within × Reach) (Option Nat))
  | outer, .statement start => (statementHead o outer start).map .again
  | [], .ended last => some (.done last)
  | _ :: outer, .ended none => some (.again (outer, .ended none))
  | .conditional :: outer, .ended (some e) =>
    some (.again (outer, if o.is (e + 1) "else" then .statement (e + 2) else .ended (some e)))
  | .loop :: outer, .ended (some e) =>
    some (.again (outer, .ended ((o.doLoopTail e).map fun tail => tail.2.val)))

/-- How far the statements around reach, the innermost first. -/
def spanWithin (o : Outline) (outer : List Within) (r : Reach) : Option (Option Nat) :=
  loop (fun s => spanTurn o s.1 s.2) (outer, r)

/-- The last token of the statement that starts at `start`, if it has one. -/
def statementSpan (o : Outline) (start : Nat) : Option (Option Nat) :=
  spanWithin o [] (.statement start)

end

variable {o : Outline} {i j start : Nat}

theorem continues_eq (hw : o.Whole) (hi : i < o.size) (hj : j < o.size) :
    continues o i j = some (o.continues i j) := reading_two hw hi hj

theorem continues_pred_eq (hw : o.Whole) (hi : i < o.size) :
    continues o (i - 1) i = some (o.continues (i - 1) i) :=
  continues_eq hw (Nat.lt_of_le_of_lt (Nat.sub_le i 1) hi) hi

theorem continues_succ_eq (hw : o.Whole) (hi : i + 1 < o.size) :
    continues o i (i + 1) = some (o.continues i (i + 1)) :=
  continues_eq hw (Nat.lt_of_succ_lt hi) hi

theorem startsStatement_eq (hw : o.Whole) (hi : i < o.size) :
    startsStatement o i = some (o.startsStatement i) :=
  reading_two hw (Nat.lt_of_le_of_lt (Nat.sub_le i 1) hi) hi

theorem statementEnd_eq (hw : o.Whole) (hi : i < o.size) :
    statementEnd o i = some (o.statementEnd i) := by
  unfold Outline.statementEnd
  fun_induction Outline.pastStatement o i with
  | case1 start hsemicolon => exact loop_done (by rw [statementTurn, if_pos hsemicolon]; rfl)
  | case2 start hsemicolon next hn hpast hlt hcontinues rest hr hrest ih =>
    rw [hrest] at ih
    rw [← ih hlt]
    exact loop_again (by simp [statementTurn, hsemicolon, reading_one hw hi, hpast, hlt,
      continues_pred_eq hw hlt, hcontinues])
  | case3 start hsemicolon next hn hpast hlt hcontinues =>
    exact loop_done (by simp [statementTurn, hsemicolon, reading_one hw hi, hpast,
      continues_pred_eq hw hlt, hcontinues])
  | case4 start hsemicolon next hn hpast hlt =>
    exact loop_done (by simp [statementTurn, hsemicolon, reading_one hw hi, hpast, hlt])

theorem loop_topLevelTurn (hw : o.Whole) (found : List (Nat × Nat)) (i : Nat) :
    loop (fun s => topLevelTurn o s.1 s.2) (found, i) = some (found ++ o.statementsFrom i) := by
  fun_induction Outline.statementsFrom o i generalizing found with
  | case1 i hi next hn hpast ih =>
    have hend := statementEnd_eq hw hi
    have hnext : next - 1 + 1 = next := Nat.sub_add_cancel (Nat.lt_of_le_of_lt (Nat.zero_le i) hn)
    rw [Outline.statementEnd, hpast] at hend
    have hturn : topLevelTurn o found i = some (.again (found ++ [(i, next - 1)], next)) := by
      simp [topLevelTurn, hi, hend, hnext]
    refine (loop_again hturn).trans ?_
    rw [ih, List.append_assoc, List.singleton_append]
  | case2 i hi => exact loop_done (by simp [topLevelTurn, hi])

theorem topLevelStatements_eq (hw : o.Whole) :
    topLevelStatements o = some o.topLevelStatements := loop_topLevelTurn hw [] 0

theorem loop_simpleTurn (hw : o.Whole) (h : start ≤ i) (hi : i < o.size) :
    loop (simpleTurn o start) i = some ((o.simpleStatementEnd start i h).map Subtype.val) := by
  have hvalue {i : Nat} {last? : Option { e : Nat // i ≤ e }}
      (h : last? = if o.isOpener i then (o.closing? i).map fun c => ⟨c.val, Nat.le_of_lt c.property⟩
        else some ⟨i, Nat.le_refl i⟩) :
      groupEnd o i = last?.map Subtype.val := by
    rw [h, groupEnd]
    split
    · rw [Option.map_map]
      rfl
    · rfl
  fun_induction Outline.simpleStatementEnd o start i h with
  | case1 i h hsemicolon => exact loop_done (by simp [simpleTurn, reading_one hw hi, hsemicolon])
  | case2 i h hsemicolon hcloser hlt | case3 i h hsemicolon hcloser hlt =>
    exact loop_done (by simp [simpleTurn, reading_one hw hi, hsemicolon, hcloser, hlt])
  | case4 i h hsemicolon hcloser last? hlast =>
    have hvalue : groupEnd o i = last?.map Subtype.val := hvalue rfl
    exact loop_done (by simp [simpleTurn, reading_one hw hi, hsemicolon, hcloser, hvalue, hlast])
  | case5 i h hsemicolon hcloser last? last hl hlast hlt hcontinues ih =>
    have hvalue : groupEnd o i = last?.map Subtype.val := hvalue rfl
    rw [← ih hlt]
    exact loop_again (by simp [simpleTurn, reading_one hw hi, hsemicolon, hcloser, hvalue, hlast,
      Nat.not_le.mpr hlt, continues_succ_eq hw hlt, hcontinues])
  | case6 i h hsemicolon hcloser last? last hl hlast hlt hcontinues =>
    have hvalue : groupEnd o i = last?.map Subtype.val := hvalue rfl
    exact loop_done (by simp [simpleTurn, reading_one hw hi, hsemicolon, hcloser, hvalue, hlast,
      Nat.not_le.mpr hlt, continues_succ_eq hw hlt, hcontinues])
  | case7 i h hsemicolon hcloser last? last hl hlast hlt =>
    have hvalue : groupEnd o i = last?.map Subtype.val := hvalue rfl
    exact loop_done (by simp [simpleTurn, reading_one hw hi, hsemicolon, hcloser, hvalue, hlast, hlt])

theorem spanWithin_head {outer outer' : List Within} {r : Reach}
    (h : statementHead o outer i = some (outer', r)) :
    spanWithin o outer (.statement i) = spanWithin o outer' r :=
  loop_again (by simp only [spanTurn, h, Option.map_some])

theorem spanWithin_none {w : Within} {outer : List Within} :
    spanWithin o (w :: outer) (.ended none) = spanWithin o outer (.ended none) := by
  cases w <;> exact loop_again rfl

theorem spanWithin_conditional {outer : List Within} {e : Nat} :
    spanWithin o (.conditional :: outer) (.ended (some e))
      = spanWithin o outer
        (if o.is (e + 1) "else" then .statement (e + 2) else .ended (some e)) :=
  loop_again rfl

theorem spanWithin_loop {outer : List Within} {e : Nat} :
    spanWithin o (.loop :: outer) (.ended (some e))
      = spanWithin o outer (.ended ((o.doLoopTail e).map fun tail => tail.2.val)) :=
  loop_again rfl

/-- A statement reaches as far as `Outline.statementSpan` says, whatever it stands in. -/
theorem spanWithin_statement (hw : o.Whole) (outer : List Within) (i : Nat) :
    spanWithin o outer (.statement i)
      = spanWithin o outer (.ended ((o.statementSpan i).map Subtype.val)) := by
  fun_induction Outline.statementSpan o i generalizing outer with
  | case4 i hi hif c hic hc hthen ih =>
    have hhead : statementHead o outer i = some (.conditional :: outer, .statement (c + 1)) := by
      simp [statementHead, Nat.not_le.mpr hi, hif, hc]
    rw [spanWithin_head hhead, ih, hthen]
    exact spanWithin_none
  | case5 i hi hif c hic hc e he hthen helse ih ih' =>
    have hhead : statementHead o outer i = some (.conditional :: outer, .statement (c + 1)) := by
      simp [statementHead, Nat.not_le.mpr hi, hif, hc]
    rw [spanWithin_head hhead, ih, hthen]
    refine spanWithin_conditional.trans ?_
    rw [if_pos helse, ih', Option.map_map]
    rfl
  | case6 i hi hif c hic hc e he hthen helse ih =>
    have hhead : statementHead o outer i = some (.conditional :: outer, .statement (c + 1)) := by
      simp [statementHead, Nat.not_le.mpr hi, hif, hc]
    rw [spanWithin_head hhead, ih, hthen]
    exact spanWithin_conditional.trans (by rw [if_neg helse]; rfl)
  | case8 i hi hword c hic hc ih | case10 i hi hword c hic hc ih | case12 i hi hword c hic hc ih =>
    have hhead : statementHead o outer i = some (outer, .statement (c + 1)) := by
      simp [statementHead, Nat.not_le.mpr hi, hword, hc]
    rw [spanWithin_head hhead, ih, Option.map_map]
    rfl
  | case13 i hi hdo hbody ih =>
    have hhead : statementHead o outer i = some (.loop :: outer, .statement (i + 1)) := by
      simp [statementHead, Nat.not_le.mpr hi, hdo]
    rw [spanWithin_head hhead, ih, hbody]
    exact spanWithin_none
  | case14 i hi hdo e he hbody ih =>
    have hhead : statementHead o outer i = some (.loop :: outer, .statement (i + 1)) := by
      simp [statementHead, Nat.not_le.mpr hi, hdo]
    rw [spanWithin_head hhead, ih, hbody, Option.map_map]
    exact spanWithin_loop
  | case18 i hi _ _ _ _ _ _ _ _ _ hlabel ih =>
    have hhead : statementHead o outer i = some (outer, .statement (i + 2)) := by
      simp_all [statementHead, Nat.not_le.mpr hi]
    rw [spanWithin_head hhead, ih, Option.map_map]
    rfl
  | case19 i hi =>
    have hsimple := loop_simpleTurn hw (Nat.le_refl i) hi
    exact spanWithin_head (by simp_all [statementHead, Nat.not_le.mpr hi])
  | case20 i hi => exact spanWithin_head (by simp [statementHead, Nat.le_of_not_lt hi])
  | _ => exact spanWithin_head (by simp_all [statementHead])

theorem statementSpan_eq (hw : o.Whole) (i : Nat) :
    statementSpan o i = some ((o.statementSpan i).map Subtype.val) :=
  (spanWithin_statement hw [] i).trans (loop_done rfl)

end Checked

/-! ### Types -/

namespace Outline

variable {o : Outline} {i : Nat}

theorem le_skipWhile {test : Nat → Bool} : i ≤ o.skipWhile i test := Nat.le_add_right _ _

theorem skipWhile_of_lt {test : Nat → Bool} (h : i < o.size) :
    o.skipWhile i test = if test i then o.skipWhile (i + 1) test else i := by
  split
  · next hi => exact skipWhile_eq_of hi h
  · next hi => exact skipWhile_eq_self (Bool.eq_false_iff.mpr hi)

theorem skipWhile_of_le {test : Nat → Bool} (h : o.size ≤ i) : o.skipWhile i test = i := by
  simp [skipWhile, Nat.sub_eq_zero_of_le h]

/-- What is passed over is there and passes the test. -/
theorem of_mem_skipWhile {test : Nat → Bool} {k : Nat} (h : k ∈ upTo i (o.skipWhile i test)) :
    k < o.size ∧ test k := by
  obtain ⟨hik, hk⟩ := mem_upTo.mp h
  obtain ⟨n, rfl⟩ := Nat.exists_eq_add_of_le hik
  have hn : n < ((List.range (o.size - i)).takeWhile fun k => test (i + k)).length := by
    unfold skipWhile at hk
    omega
  have hprefix := List.takeWhile_prefix (l := List.range (o.size - i)) fun k => test (i + k)
  have hget := hprefix.getElem hn
  rw [List.getElem_range] at hget
  have hlt : n < o.size - i := by
    have hle := hprefix.length_le
    rw [List.length_range] at hle
    omega
  have htest := List.all_eq_true.mp List.all_takeWhile _ (List.getElem_mem hn)
  rw [hget] at htest
  exact ⟨by omega, htest⟩

theorem skipWhile_le {test : Nat → Bool} (h : i ≤ o.size) : o.skipWhile i test ≤ o.size := by
  have htake := (List.takeWhile_prefix (l := List.range (o.size - i)) fun k => test (i + k)).length_le
  rw [List.length_range] at htake
  unfold skipWhile
  omega

theorem text_of_le (h : o.size ≤ i) : o.text i = "" :=
  of_not_not fun hne => Nat.not_lt.mpr h (lt_size hne)

/-- What is asked for by its text is there. -/
theorem lt_size_of_isAny {ws : List String} (h : o.isAny i ws) (hne : "" ∉ ws) : i < o.size :=
  lt_size fun hempty => hne (hempty ▸ List.contains_iff_mem.mp h)

theorem lt_size_of_kind? {kind : Token.Kind} (h : o.kind? i = some kind) : i < o.size := by
  obtain ⟨t, ht, -⟩ := Option.map_eq_some_iff.mp h
  exact (Array.getElem?_eq_some_iff.mp ht).1

theorem lt_size_of_isIdent (h : o.isIdent i) : i < o.size := lt_size_of_kind? (beq_iff_eq.mp h)

theorem pastMembers_le (hi : i ≤ o.size) : (o.pastMembers i).val ≤ o.size := by
  fun_induction Outline.pastMembers o i with
  | case1 i hlt hmember k hk hrest ih =>
    rw [hrest] at ih
    exact ih (lt_size_of_isIdent (Bool.and_eq_true_iff.mp hmember).2)
  | case2 | case3 => exact hi

/-- A type goes on behind its head no further than `n`. -/
def TypeHead.Within (n : Nat) : TypeHead i → Prop
  | .missing => True
  | .function k | .plain k => k.val ≤ n

namespace Whole

theorem pastAnglesFrom_le (h : o.Whole) {depth : Int} {k : { k : Nat // i < k }}
    (hk : o.pastAnglesFrom depth i = some k) : k.val ≤ o.size := by
  fun_induction Outline.pastAnglesFrom o depth i with
  | case1 | case2 | case5 | case6 => cases hk
  | case3 depth j hj hend depth' hopen next hn hpast =>
    have hle := h.past_le hj
    rw [hpast] at hle
    exact Option.some.inj hk ▸ hle
  | case4 =>
    rename_i hrest ih
    exact Option.some.inj hk ▸ ih hrest

theorem pastAngles_le (h : o.Whole) {k : { k : Nat // i < k }} (hk : o.pastAngles i = some k) :
    k.val ≤ o.size := h.pastAnglesFrom_le hk

theorem pastTypeSuffixes_le (h : o.Whole) (hi : i ≤ o.size) : (o.pastTypeSuffixes i).val ≤ o.size := by
  fun_induction Outline.pastTypeSuffixes o i with
  | case1 i hlt next? next hn hnext k hk hrest ih =>
    rw [hrest] at ih
    refine ih ?_
    dsimp only [next?] at hnext
    split at hnext
    · cases hnext
    · split at hnext
      · exact h.pastAngles_le hnext
      · split at hnext
        · obtain ⟨⟨c, hic⟩, hclosing, hc⟩ := Option.map_eq_some_iff.mp hnext
          cases hc
          exact h.closing hclosing
        · cases hnext
  | case2 | case3 => exact hi

theorem within_typeHead (h : o.Whole) : (o.typeHead i).Within o.size := by
  unfold Outline.typeHead
  split
  · split
    · next c hc hclosing =>
      split
      · next harrow => exact lt_size_of_is harrow (by decide)
      · exact h.closing hclosing
    · trivial
  · split
    · next c hc hclosing => exact h.closing hclosing
    · trivial
  · split
    · next c hc hclosing => exact h.closing hclosing
    · trivial
  · split
    · split
      · split
        · next harrow => exact lt_size_of_is harrow (by decide)
        · trivial
      · trivial
    · trivial
  · split
    · next hnumber => exact lt_size_of_kind? (beq_iff_eq.mp hnumber)
    · trivial
  · next hk => exact pastMembers_le (lt_size_of_kind? hk)
  · next hk => exact lt_size_of_kind? hk
  · next hk => exact lt_size_of_kind? hk
  · next hk => exact lt_size_of_kind? hk
  · trivial

mutual

theorem pastType_le (h : o.Whole) {i : Nat} (hi : i ≤ o.size) : (o.pastType i).val ≤ o.size := by
  rw [pastType]
  split
  · next hbar =>
    have hlt : i < o.size := lt_size_of_isAny hbar (by decide)
    exact h.pastUnion_le hlt
  · exact h.pastUnion_le hi
termination_by (o.size - i, 2)

theorem pastUnion_le (h : o.Whole) {i : Nat} (hi : i ≤ o.size) : (o.pastUnion i).val ≤ o.size := by
  rw [pastUnion]
  split
  · next hlt =>
    split
    next n hn hoperand =>
    have hle := h.pastTypeOperand_le hi
    rw [hoperand] at hle
    split
    · exact hi
    · next hne =>
      split
      · next hbar =>
        have hbar : n < o.size := lt_size_of_isAny hbar (by decide)
        exact h.pastUnion_le hbar
      · split
        · next hextends =>
          simp only [Bool.and_eq_true] at hextends
          have hextends : n < o.size := lt_size_of_is hextends.1 (by decide)
          split
          next tested ht htested =>
          have htested' := h.pastType_le hextends
          rw [htested] at htested'
          split
          · next hmark =>
            have hmark : tested < o.size := lt_size_of_is hmark (by decide)
            split
            next yes hy hyes =>
            have hyes' := h.pastType_le hmark
            rw [hyes] at hyes'
            split
            · next hcolon =>
              have hcolon : yes < o.size := lt_size_of_is hcolon (by decide)
              exact h.pastType_le hcolon
            · exact hyes'
          · exact htested'
        · split
          · next his =>
            simp only [Bool.and_eq_true] at his
            have his : n < o.size := lt_size_of_is his.1 (by decide)
            exact h.pastType_le his
          · exact hle
  · exact hi
termination_by (o.size - i, 1)
decreasing_by all_goals omega

theorem pastTypeOperand_le (h : o.Whole) {i : Nat} (hi : i ≤ o.size) :
    (o.pastTypeOperand i).val ≤ o.size := by
  rw [pastTypeOperand]
  split
  next j hj hprefixes =>
  split
  · next hlt =>
    have hhead : (o.typeHead j).Within o.size := h.within_typeHead
    split
    · exact hi
    · next result hr heq =>
      rw [heq] at hhead
      exact h.pastType_le hhead
    · next next hn heq =>
      rw [heq] at hhead
      exact h.pastTypeSuffixes_le hhead
  · exact hi
termination_by (o.size - i, 0)
decreasing_by all_goals omega

end

end Whole

end Outline

namespace Typed

open Text (Edit)

variable {o : Outline} {i : Nat}

/-- What goes with the type parameters or arguments that open at `i`, and the index behind them. -/
def genericsOf (o : Outline) (i : Nat) : List Edit × Nat :=
  match if o.is i "<" then o.pastAngles i else none with
  | some ⟨next, _⟩ => ([removal o i (next - 1)], next)
  | none => ([], i)

theorem le_genericsOf : i ≤ (genericsOf o i).2 := by
  unfold genericsOf
  split
  · next hn _ => exact Nat.le_of_lt hn
  · exact Nat.le_refl i

theorem genericsOf_le (hw : o.Whole) (hi : i ≤ o.size) : (genericsOf o i).2 ≤ o.size := by
  unfold genericsOf
  split
  · next heq => exact hw.pastAngles_le (Option.ite_none_right_eq_some.mp heq).2
  · exact hi

theorem le_typeAt : i ≤ (typeAt o i).2 := by
  unfold typeAt
  split
  · exact Nat.le_of_succ_le (o.pastType (i + 1)).property
  · exact Nat.le_refl i

theorem typeAt_le (hw : o.Whole) (hi : i ≤ o.size) : (typeAt o i).2 ≤ o.size := by
  unfold typeAt
  split
  · next hcolon => exact hw.pastType_le (Outline.lt_size_of_is hcolon (by decide))
  · exact hi

end Typed

namespace Checked

open Text (Edit)

noncomputable section

/-- Reads on while the test holds. -/
def skip (test : Nat → Bool) (i : Nat) : Option Nat :=
  loop (fun j => some (if test j then .again (j + 1) else .done j)) i

/-- An edit that is made if it is asked for. -/
def given (asked : Bool) (e : Option Edit) : Option (List Edit) :=
  if asked then e.map fun e => [e] else some []

/-- Takes a word out together with the blanks behind it. -/
def wordRemoval (o : Outline) (i : Nat) : Option Edit :=
  if i + 1 < o.size && !o.newlineBefore (i + 1) then removalUpTo o i (i + 1) else removal o i i

def wordRemovals (o : Outline) (is : List Nat) : Option (List Edit) :=
  collect (fun i => (wordRemoval o i).map fun e => [e]) is

/-- Takes the annotation whose colon is at `i` out, if it is one. -/
def typeAt (o : Outline) (i : Nat) : Option (List Edit × Nat) :=
  if o.is i ":" then
    let stop := (o.pastType (i + 1)).val
    (given (i + 1 < stop) (removal o i (stop - 1))).map fun edits => (edits, stop)
  else some ([], i)

/-- Takes the type parameters or arguments that open at `i` out, if there are any. -/
def generics (o : Outline) (i : Nat) : Option (List Edit × Nat) :=
  match if o.is i "<" then o.pastAngles i else none with
  | some next => (removal o i (next.val - 1)).map fun e => ([e], next.val)
  | none => some ([], i)

end

variable {o : Outline} {i : Nat}

theorem skip_eq {test : Nat → Bool} (h : ∀ j, o.size ≤ j → test j = false) :
    skip test i = some (o.skipWhile i test) := by
  induction hn : o.size - i generalizing i with
  | zero =>
    have hi : o.size ≤ i := Nat.le_of_sub_eq_zero hn
    rw [Outline.skipWhile_of_le hi]
    exact loop_done (by rw [h i hi]; rfl)
  | succ n ih =>
    rw [Outline.skipWhile_of_lt (by omega)]
    split
    · next hi =>
      rw [← ih (i := i + 1) (by omega)]
      exact loop_again (by rw [if_pos hi])
    · next hi => exact loop_done (by rw [if_neg hi])

/-- Reading on ends behind the last token if it looks where it is. -/
theorem skip_within {test : Nat → Bool} :
    skip (fun j => j < o.size && test j) i = some (o.skipWhile i test) := by
  have htest : ∀ j, o.size ≤ j → (decide (j < o.size) && test j) = false := fun j hj => by
    rw [decide_eq_false (Nat.not_lt.mpr hj), Bool.false_and]
  rw [skip_eq htest]
  induction hn : o.size - i generalizing i with
  | zero =>
    have hi : o.size ≤ i := Nat.le_of_sub_eq_zero hn
    rw [Outline.skipWhile_of_le hi, Outline.skipWhile_of_le hi]
  | succ n ih =>
    have hi : i < o.size := by omega
    rw [Outline.skipWhile_of_lt hi, Outline.skipWhile_of_lt hi, decide_eq_true hi, Bool.true_and]
    split
    · exact ih (by omega)
    · rfl

theorem given_eq {asked : Bool} {e? : Option Edit} {e : Edit} (h : asked → e? = some e) :
    given asked e? = some (if asked then [e] else []) := by
  unfold given
  split
  · next hasked => rw [h hasked]; rfl
  · rfl

theorem wordRemoval_eq (hw : o.Whole) (hi : i < o.size) :
    wordRemoval o i = some (Typed.wordRemoval o i) := by
  unfold wordRemoval Typed.wordRemoval
  split
  · next hnext =>
    simp only [Bool.and_eq_true, decide_eq_true_eq] at hnext
    exact removalUpTo_eq hw (Nat.le_succ i) hnext.1
  · exact removal_eq hw (Nat.le_refl i) hi

theorem wordRemovals_eq (hw : o.Whole) {is : List Nat} (h : ∀ i ∈ is, i < o.size) :
    wordRemovals o is = some (is.map (Typed.wordRemoval o)) := by
  rw [List.map_eq_flatMap]
  exact collect_eq fun i hi => by rw [wordRemoval_eq hw (h i hi)]; rfl

theorem typeAt_eq (hw : o.Whole) : typeAt o i = some (Typed.typeAt o i) := by
  unfold typeAt Typed.typeAt
  split
  · next hcolon =>
    have hle : (o.pastType (i + 1)).val ≤ o.size :=
      hw.pastType_le (Outline.lt_size_of_is hcolon (by decide))
    have hremoval : decide (i + 1 < (o.pastType (i + 1)).val) →
        removal o i ((o.pastType (i + 1)).val - 1) =
          some (Typed.removal o i ((o.pastType (i + 1)).val - 1)) := fun hlt => by
      rw [decide_eq_true_eq] at hlt
      exact removal_eq hw (by omega) (by omega)
    simp [given_eq hremoval]
  · rfl

theorem generics_eq (hw : o.Whole) : generics o i = some (Typed.genericsOf o i) := by
  unfold generics Typed.genericsOf
  split
  · next next hnext =>
    have hangles : o.pastAngles i = some next := (Option.ite_none_right_eq_some.mp hnext).2
    have hle := hw.pastAngles_le hangles
    have hlt := next.property
    rw [removal_eq hw (by omega) (by omega), hnext]
    rfl
  · next hnone => rw [hnone]

end Checked

end Scratchpad
