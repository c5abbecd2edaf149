import Scratchpad.Proofs.Token.Munch
import Scratchpad.Proofs.Token.Shard

/-!
Where a shard of a text may stand: what a piece of text is cut into depends on the text itself and
on the few characters behind it that could belong to it.
-/
namespace Scratchpad

open Text (Fault)
open Shard (fitsBehind textOf tokensOf)

namespace Shard

open Token

variable {d : Dialect} {f f' : Bool} {s : Shard} {ss : List Shard} {c : Char} {cs r u v w w' : List Char}
  {x : Lexeme}

/-- Cutting `r` with `s` in front of it, the shard `s` is cut off first. -/
def Stands (d : Dialect) (f : Bool) (s : Shard) (r : List Char) : Prop :=
  ∃ c u, s.text = c :: u ∧ lexeme d f c (u ++ r) = ⟨s.piece, u.length, s.faults⟩

theorem Stands.shards (h : Stands d f s r) :
    Scratchpad.shards d f (s.text ++ r)
      = s :: Scratchpad.shards d (fitsBehind f s.tokens) r := by
  obtain ⟨c, u, ht, hlex⟩ := h
  obtain ⟨piece, text, faults⟩ := s
  obtain rfl : text = c :: u := ht
  rw [List.cons_append, Scratchpad.shards, hlex]
  simp

/-- Names, numbers and regular expressions: they could go on with a letter. -/
def isWord (s : Shard) : Bool :=
  match s.piece with
  | .token kind => kind = .ident || kind = .number || kind = .regex
  | _ => false

/-- What stands behind `s` may turn from what starts with `v` into `v` and `w'`. -/
structure Joint (d : Dialect) (s : Shard) (v w' : List Char) : Prop where
  soft : ∃ i t, w' = i :: t ∧ isSoft d i ∧ (v = [] → s.isWord → endsWord d i)
  line : s.piece = .comment → (d = .script → s.text.take 2 = ['/', '/']) → '\n' ∈ v
  point : d = .script → s.text = ['?'] → v ≠ ['.']
  last : s.text ≠ ['\\', '\r']

/-- A slash that is a token is read as before; one that is no regular expression need not look for
the end of one. -/
def Steady (f f' : Bool) (s : Shard) : Prop :=
  s.text.head? = some '/' → s.tokens ≠ [] → f' = f ∧ (s.piece = .token .punct → f = false)

section

variable (hj : w' = w ∨ Joint d s v w')

include hj

theorem meets (hw : s.isWord) : Meets (endsWord d) (v ++ w) (v ++ w') := by
  rcases hj with rfl | hj
  · exact .inl rfl
  · cases v with
    | nil =>
      obtain ⟨i, t, rfl, -, hi⟩ := hj.soft
      refine .inr fun j hj => ?_
      obtain rfl : i = j := Option.some.inj hj
      exact hi rfl hw
    | cons c v => exact .inl rfl

theorem meets_soft : Meets (isSoft d) (v ++ w) (v ++ w') := by
  rcases hj with rfl | hj
  · exact .inl rfl
  · cases v with
    | nil =>
      obtain ⟨i, t, rfl, hi, -⟩ := hj.soft
      refine .inr fun j hj => ?_
      obtain rfl : i = j := Option.some.inj hj
      exact hi
    | cons c v => exact .inl rfl

theorem head?_ne_of_joint {k : Char} (hk : isSoft d k = false)
    (h : (u ++ (v ++ w)).head? ≠ some k) : (u ++ (v ++ w')).head? ≠ some k := by
  cases u with
  | cons c u => exact h
  | nil =>
    rcases meets_soft hj with hsame | hsoft
    · rwa [List.nil_append, hsame]
    · intro hhead
      rw [hsoft k hhead] at hk
      cases hk

theorem opensGap_of_joint (h : opensGap d c (u ++ (v ++ w)) = false) :
    opensGap d c (u ++ (v ++ w')) = false := by
  cases d with
  | script =>
    simp only [opensGap, Bool.and_eq_false_imp, decide_eq_true_eq, Bool.or_eq_false_iff,
      decide_eq_false_iff_not] at h ⊢
    exact fun hc => ⟨head?_ne_of_joint hj (by decide) (h hc).1,
      head?_ne_of_joint hj (by decide) (h hc).2⟩
  | python =>
    simp only [opensGap, Bool.and_eq_false_imp, decide_eq_true_eq, Bool.or_eq_false_iff,
      decide_eq_false_iff_not] at h ⊢
    exact ⟨h.1, fun hc => ⟨head?_ne_of_joint hj (by decide) (h.2 hc).1,
      head?_ne_of_joint hj (by decide) (h.2 hc).2⟩⟩

end

theorem stays_of_sound {φ : List Char → Extent} {piece : Piece} {k : Nat} {fault : Text.Fault}
    (hφ : ∀ {cs}, (φ cs).Sound → Closes φ cs) (r' : List Char)
    (hm : (ofExtent piece k (φ (u ++ r)) fault).more = k + u.length)
    (hf : (ofExtent piece k (φ (u ++ r)) fault).faults = []) : φ (u ++ r') = φ (u ++ r) := by
  have hlen : (φ (u ++ r)).length = u.length := Nat.add_left_cancel hm
  have hstays := (hφ (sound_of_faults hf)).stays r'
  rwa [hlen, List.take_left] at hstays

theorem lineComment_of_mem (u w w' : List Char) (h : '\n' ∈ v) :
    lineComment (u ++ (v ++ w')) = lineComment (u ++ (v ++ w)) := by
  have htake (t : List Char) : (u ++ v ++ t).takeWhile (· ≠ '\n') = (u ++ v).takeWhile (· ≠ '\n') := by
    rw [List.takeWhile_append, if_neg fun hlen => ?_]
    have hall := List.all_takeWhile (p := fun c => decide (c ≠ '\n')) (l := u ++ v)
    rw [List.IsPrefix.eq_of_length (List.takeWhile_prefix _) hlen] at hall
    simpa using List.all_eq_true.mp hall '\n' (List.mem_append_right _ h)
  rw [lineComment, lineComment, ← List.append_assoc, ← List.append_assoc, htake, htake]

theorem startsNumber_of_joint (hj : w' = w ∨ Joint d s v w')
    (hm : (tokenLexeme d f c (u ++ (v ++ w))).more = u.length)
    (hl : opensLiteral d c (u ++ (v ++ w)) = false) :
    startsNumber c (u ++ (v ++ w')) = startsNumber c (u ++ (v ++ w)) := by
  by_cases hc : c = '.'
  · subst hc
    have hdigit (t : List Char) : startsNumber '.' t = t.head?.any Char.isDigit := by
      cases t <;> simp [startsNumber, startsWithDigit]
    cases u with
    | cons k u => rfl
    | nil =>
      rcases meets_soft hj with hsame | hsoft
      · rw [List.nil_append, List.nil_append, hdigit, hdigit, hsame]
      · have hnew : startsNumber '.' (v ++ w') = false := by
          rw [hdigit, Option.any_eq_false]
          exact fun i hi => by simp [not_isDigit_of_isSoft (hsoft i hi)]
        have hold : startsNumber '.' (v ++ w) = false := by
          refine Bool.eq_false_iff.mpr fun hold => ?_
          rw [List.nil_append] at hm hl
          rw [tokenLexeme_number hl hold] at hm
          obtain ⟨i, hi, hdig⟩ := (Option.any_eq_true _ _).mp ((hdigit _).symm.trans hold)
          have hnext : numberLength (isHex ('.' :: (v ++ w))) ('.' :: (v ++ w))
              = 1 + numberLength (isHex ('.' :: (v ++ w))) (v ++ w) :=
            numberLength_next (by decide) (by simp [hasSign])
          have hzero : numberLength (isHex ('.' :: (v ++ w))) (v ++ w) = 0 := by
            simp only [List.length_nil, hnext] at hm
            omega
          have hnot := numberLength_eq_zero.mp hzero i hi
          simp [inNumber, Char.isAlphanum, hdig] at hnot
        rw [List.nil_append, List.nil_append, hnew, hold]
  · simp [startsNumber, hc]

theorem isHex_of_meets {r r' : List Char} (hr : Meets (endsWord d) r r')
    (h : numberLength (isHex (c :: (u ++ r))) (c :: (u ++ r)) = u.length + 1) :
    isHex (c :: (u ++ r')) = isHex (c :: (u ++ r)) := by
  cases u with
  | cons k u => rfl
  | nil =>
    simp only [List.nil_append] at h ⊢
    have hold : isHex (c :: r) = false := by
      refine Bool.eq_false_iff.mpr fun hx => ?_
      obtain ⟨rfl, hhead⟩ := isHex_cons.mp hx
      rw [hx, numberLength_next (by decide) (by simp [hasSign]), List.length_nil] at h
      have hnot := numberLength_eq_zero.mp (Nat.add_left_cancel (h.trans (Nat.add_comm 0 1)))
      rcases hhead with hhead | hhead
      · exact absurd (hnot 'x' hhead) (by decide)
      · exact absurd (hnot 'X' hhead) (by decide)
    rw [hold]
    refine Bool.eq_false_iff.mpr fun hx => ?_
    obtain ⟨rfl, hhead⟩ := isHex_cons.mp hx
    rcases hr with hr | hr
    · rw [hr] at hhead
      rw [isHex_cons.mpr ⟨rfl, hhead⟩] at hold
      cases hold
    · rcases hhead with hhead | hhead
      · exact absurd (not_inNumber_of_endsWord (hr 'x' hhead)) (by decide)
      · exact absurd (not_inNumber_of_endsWord (hr 'X' hhead)) (by decide)

theorem punctLength_of_joint (ht : s.text = c :: u) (hj : w' = w ∨ Joint d s v w')
    (h : punctLength d (c :: (u ++ (v ++ w))) = u.length + 1) :
    punctLength d (c :: (u ++ (v ++ w'))) = u.length + 1 := by
  rcases hj with rfl | hj
  · exact h
  · obtain ⟨i, t, rfl, hi, -⟩ := hj.soft
    rw [← List.cons_append] at h ⊢
    exact length_punct hi h fun hd ha => hj.point hd (ht.trans ha)

theorem isMark_eq_false_of_startsNumber (h : startsNumber c r) : isMark c = false := by
  refine Bool.eq_false_iff.mpr fun hmark => ?_
  have hmem : c ∈ ['r', 'R', 'b', 'B', 'f', 'F', 'u', 'U'] := List.contains_iff_mem.mp hmark
  simp only [List.mem_cons, List.not_mem_nil, or_false] at hmem
  simp only [startsNumber, Bool.or_eq_true, Bool.and_eq_true, decide_eq_true_eq] at h
  rcases hmem with rfl | rfl | rfl | rfl | rfl | rfl | rfl | rfl <;> simp [Char.isDigit] at h

/-- A name does not turn into the mark of a string. -/
theorem opensLiteral_of_name (hl : opensLiteral d c (u ++ (v ++ w)) = false)
    (hname : ((u ++ (v ++ w)).takeWhile (continuesName d)).length = u.length)
    (hr : Meets (endsWord d) (v ++ w) (v ++ w')) : opensLiteral d c (u ++ (v ++ w')) = false := by
  cases d with
  | script => exact hl
  | python =>
    simp only [opensLiteral, Bool.or_eq_false_iff, Bool.and_eq_false_imp, decide_eq_true_eq,
      forall_const, decide_eq_false_iff_not, not_not] at hl ⊢
    refine ⟨⟨⟨?_, hl.1.1.2⟩, hl.1.2⟩, hl.2⟩
    have hnext (i : Char) (hi : (v ++ w).head? = some i) : isMark i = false := by
      refine Bool.eq_false_iff.mpr fun hmark => ?_
      have hnot := not_of_length_takeWhile hname hi
      rw [continuesName_of_isMark hmark] at hnot
      cases hnot
    have hmeets : Meets (fun i => !isMark i && !isQuote i) (v ++ w) (v ++ w') := by
      refine hr.imp fun i hi => ?_
      have hquote := not_isQuote_of_isSoft (isSoft_of_endsWord hi)
      have hmark : isMark i = false := by
        refine Bool.eq_false_iff.mpr fun hmark => ?_
        have hnot := not_isAlphanum_of_endsWord hi
        rw [isAlphanum_of_isMark hmark] at hnot
        cases hnot
      simp [hmark, isQuote, hquote]
    exact stringMark_eq_zero (a := c :: u) hl.1.1.1 hnext hmeets

/-- A token stays what it is. -/
theorem move_token (h : Told f c (u ++ (v ++ w)) d x) (ht : s.text = c :: u)
    (hp : x.piece = s.piece) (hm : x.more = u.length) (hx : x.faults = [])
    (hf : d = .script → Steady f f' s) (hj : w' = w ∨ Joint d s v w') :
    tokenLexeme d f' c (u ++ (v ++ w')) = x := by
  cases h with
  | quoted h =>
    rw [tokenLexeme_quoted h, stays_of_sound closes_quoted _ (hm.trans (Nat.zero_add _).symm) hx]
  | template h =>
    subst h
    rw [tokenLexeme_template, stays_of_sound closes_template _ (hm.trans (Nat.zero_add _).symm) hx]
  | marked h =>
    have hpos := pos_pythonString (sound_of_faults hx)
    have hlt : stringMark (c :: (u ++ (v ++ w))) < (c :: u).length := by
      rw [List.length_cons, ← hm]
      exact Nat.lt_succ_of_le (Nat.le_add_right _ _)
    have hmark : stringMark (c :: (u ++ (v ++ w'))) = stringMark (c :: (u ++ (v ++ w))) :=
      stringMark_append (a := c :: u) (length_of_stringMark h ▸ hlt)
    have hquote := isQuote_of_stringMark h
    generalize stringMark (c :: (u ++ (v ++ w))) = n at *
    have hle : n ≤ u.length := Nat.le_of_lt_succ hlt
    have hget (t : List Char) : (c :: (u ++ t)).getD n '"' = (c :: u).getD n '"' := by
      rw [List.getD_eq_getElem?_getD, List.getD_eq_getElem?_getD, ← List.cons_append,
        List.getElem?_append_left hlt]
    have hmeets : Meets (· ≠ (c :: u).getD n '"') (v ++ w) (v ++ w') := by
      refine (meets_soft hj).imp fun i hi => ?_
      have hnot := not_isQuote_of_isSoft hi
      rw [hget] at hquote
      refine decide_eq_true fun hi => ?_
      rw [← hi] at hquote
      simp [isQuote, hnot] at hquote
    have hdrop (t : List Char) : (u ++ t).drop n = u.drop n ++ t := List.drop_append_of_le_length hle
    have hmore : n + (pythonString ((c :: (u ++ (v ++ w))).getD n '"')
        ((u ++ (v ++ w)).drop n)).1.length = u.length := hm
    have hsound := sound_of_faults hx
    rw [hget, hdrop] at hmore hsound
    rw [tokenLexeme_marked (by rw [hmark]; exact h), hmark, hget, hget, hdrop, hdrop, stringLexeme,
      pythonString_stays hsound (by rw [List.length_drop]; omega) hmeets]
    rfl
  | string hmark h =>
    have hmark' : stringMark (c :: (u ++ (v ++ w'))) = 0 := by
      refine stringMark_of_not_isMark ?_
      rcases h with rfl | rfl <;> decide
    have hquote : Meets (· ≠ c) (v ++ w) (v ++ w') := by
      refine (meets_soft hj).imp fun i hi => ?_
      have hnot := not_isQuote_of_isSoft hi
      rcases h with rfl | rfl
      · exact decide_eq_true hnot.1
      · exact decide_eq_true hnot.2
    rw [tokenLexeme_string hmark' h, stringLexeme, pythonString_stays (sound_of_faults hx)
      (Nat.add_left_cancel (hm.trans (Nat.zero_add _).symm)) hquote]
    rfl
  | number hl h =>
    have hstarts : startsNumber c (u ++ (v ++ w')) = true :=
      (startsNumber_of_joint (f := f) hj (by rw [tokenLexeme_number hl h, hm]) hl).trans h
    have hword : s.isWord := by
      rw [isWord, ← hp]
      rfl
    have hlen : numberLength (isHex (c :: (u ++ (v ++ w)))) (c :: (u ++ (v ++ w))) = u.length + 1 := by
      have hpos : 0 < numberLength (isHex (c :: (u ++ (v ++ w)))) (c :: (u ++ (v ++ w))) :=
        pos_of_startsNumber h
      dsimp only at hm
      omega
    have hlen' : numberLength (isHex (c :: (u ++ (v ++ w)))) (c :: (u ++ (v ++ w'))) = u.length + 1 :=
      length_number (a := c :: u) hlen (meets hj hword)
    rw [tokenLexeme_number (opensLiteral_of_not_isMark (isMark_eq_false_of_startsNumber h) hl) hstarts,
      isHex_of_meets (meets hj hword) hlen, hlen', hlen]
  | @regex n hc hreg h =>
    subst hc hreg
    obtain rfl : n = u.length := hm
    obtain ⟨rfl, -⟩ := hf rfl (by rw [ht]; rfl) (by simp [tokens, ← hp])
    have hword : s.isWord := by
      rw [isWord, ← hp]
      rfl
    rw [tokenLexeme_regex (length_regex h (meets hj hword))]
  | slash hc hreg h =>
    subst hc hreg
    exact absurd ((hf rfl (by rw [ht]; rfl) (by simp [tokens, ← hp])).2 hp.symm) (by decide)
  | name hl hn h =>
    have hstarts : startsNumber c (u ++ (v ++ w')) = false :=
      (startsNumber_of_joint (f := f) hj (by rw [tokenLexeme_name hl hn h, hm]) hl).trans hn
    have hword : s.isWord := by
      rw [isWord, ← hp]
      rfl
    have hmeets := meets hj hword
    have hends (i : Char) (hi : endsWord d i) : !continuesName d i := by
      simp only [endsWord, Bool.and_eq_true] at hi
      exact hi.1.1
    rw [tokenLexeme_name (opensLiteral_of_name hl hm hmeets) hstarts h,
      length_takeWhile hm (hmeets.imp hends), ← hm]
  | punct hl hn hs h =>
    have hstarts : startsNumber c (u ++ (v ++ w')) = false :=
      (startsNumber_of_joint (f := f) hj (by rw [tokenLexeme_punct hl hn hs h, hm]) hl).trans hn
    have hmark : isMark c = false := by
      refine Bool.eq_false_iff.mpr fun hmark => ?_
      rw [startsName_of_isMark hmark] at h
      cases h
    have hs' : d = .script → c = '/' → f' = false := by
      rintro hd rfl
      have hsteady := hf hd (by rw [ht]; rfl) (by simp [tokens, ← hp])
      rw [hsteady.1, hs hd rfl]
    have hlen : punctLength d (c :: (u ++ (v ++ w))) = u.length + 1 := by
      have hpos := pos_punctLength (d := d) (c :: (u ++ (v ++ w)))
      dsimp only at hm
      omega
    rw [tokenLexeme_punct (opensLiteral_of_not_isMark hmark hl) hstarts hs' h,
      punctLength_of_joint ht hj hlen, hlen]

/-- A piece stays what it is. -/
theorem move_front (h : Front f d c r x) (hr : r = u ++ (v ++ w)) (ht : s.text = c :: u)
    (hp : x.piece = s.piece) (hm : x.more = u.length) (hx : x.faults = [])
    (hf : d = .script → Steady f f' s) (hj : w' = w ∨ Joint d s v w') :
    lexeme d f' c (u ++ (v ++ w')) = x := by
  have hline (n : Nat) (hcomment : s.piece = .comment)
      (hslash : d = .script → s.text.take 2 = ['/', '/']) :
      lineComment (u.drop n ++ (v ++ w')) = lineComment (u.drop n ++ (v ++ w)) := by
    rcases hj with rfl | hj
    · rfl
    · exact lineComment_of_mem _ _ _ (hj.line hcomment hslash)
  cases h with
  | blank h => exact lexeme_blank h
  | feed =>
    obtain ⟨i, rfl⟩ := List.length_eq_one_iff.mp hm.symm
    obtain ⟨rfl, -⟩ := List.cons.inj hr
    rfl
  | lastReturn =>
    obtain ⟨i, rfl⟩ := List.length_eq_one_iff.mp hm.symm
    obtain ⟨rfl, hnil⟩ := List.cons.inj hr
    rcases hj with rfl | hj
    · have hnil : v ++ w' = [] := hnil.symm
      rw [hnil]
      rfl
    · exact absurd ht hj.last
  | «return» =>
    match u, hm with
    | [i, j], _ =>
      obtain ⟨rfl, -⟩ := List.cons.inj hr
      rfl
  | hash =>
    subst hr
    exact congrArg (fun n => Lexeme.mk .comment n []) (hline 0 hp.symm nofun)
  | slashes =>
    cases u with
    | nil => exact absurd hm (by simp)
    | cons i u =>
      obtain ⟨rfl, rfl⟩ := List.cons.inj hr
      exact congrArg (fun n => Lexeme.mk .comment (1 + n) [])
        (hline 1 hp.symm fun _ => by rw [ht]; rfl)
  | block =>
    cases u with
    | nil => exact absurd hm (by simp [ofExtent])
    | cons i u =>
      obtain ⟨rfl, rfl⟩ := List.cons.inj hr
      have hsame := stays_of_sound closes_blockComment (v ++ w') (hm.trans (Nat.add_comm _ _)) hx
      exact congrArg (fun e => ofExtent .comment 1 e .unterminatedComment) hsame
  | token h hg =>
    subst hr
    rw [lexeme_token h (opensGap_of_joint hj hg)]
    exact move_token told_tokenLexeme ht hp hm hx hf hj

theorem Stands.move (h : Stands d f s (v ++ w)) (hs : s.faults = [])
    (hf : d = .script → Steady f f' s) (hj : w' = w ∨ Joint d s v w') :
    Stands d f' s (v ++ w') := by
  obtain ⟨c, u, ht, hlex⟩ := h
  refine ⟨c, u, ht, ?_⟩
  rw [← hlex]
  exact move_front front_lexeme rfl ht (by rw [hlex]) (by rw [hlex]) (by rw [hlex, hs]) hf hj

/-- In what a text is cut into, each shard without faults stands before the rest. -/
theorem stands_of_shards (h : shards d f cs = s :: ss) (hs : s.faults = []) :
    Stands d f s (textOf ss) ∧ shards d (fitsBehind f s.tokens) (textOf ss) = ss := by
  cases cs with
  | nil => rw [Scratchpad.shards] at h; cases h
  | cons c r =>
    rw [Scratchpad.shards] at h
    obtain ⟨rfl, rfl⟩ := List.cons.inj h
    rw [textOf_shards]
    have hle := front_lexeme.more_le hs
    refine ⟨⟨c, r.take (lexeme d f c r).more, rfl, ?_⟩, rfl⟩
    rw [List.take_append_drop, List.length_take_of_le hle]

end Shard

end Scratchpad
