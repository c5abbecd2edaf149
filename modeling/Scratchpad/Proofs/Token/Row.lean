import Scratchpad.Proofs.Token.Segment

/-!
Rows of words, numbers and marks: texts of a few tokens that are cut into these tokens whatever
stands behind them.
-/
namespace Scratchpad

open Shard (textOf tokensOf Stands)
open Text (isLetter)

namespace Token

variable {c i : Char} {r ds : List Char}

theorem not_isLetter_of_isDigit (h : c.isDigit) : isLetter c = false := by
  have hbounds : 48 ≤ c.toNat ∧ c.toNat ≤ 57 := by
    simpa [Char.isDigit, UInt32.le_iff_toNat_le] using h
  have hupper : ¬ (65 ≤ c.toNat ∧ c.toNat ≤ 90) := by omega
  have hlower : ¬ 97 ≤ c.toNat := by omega
  have halpha : c.isAlpha = false := Bool.or_eq_false_iff.mpr
    ⟨decide_eq_false hupper, Bool.and_eq_false_iff.mpr (.inl (decide_eq_false hlower))⟩
  rw [isLetter, if_pos (by omega), halpha]

/-- Characters that no name starts with and that start something else. -/
def others : List Char :=
  [' ', '\t', '\r', '\n', '\ufeff', '\u00a0', '#', '\\', '"', '\'', '.', '\x60']

theorem not_mem_others (h : startsName .python c) : c ∉ others := by
  have hnone : others.all fun c => !startsName .python c := by decide +kernel
  intro hmem
  have hno := List.all_eq_true.mp hnone c hmem
  rw [h] at hno
  cases hno

theorem not_isDigit_of_startsName (h : startsName .python c) : c.isDigit = false := by
  refine Bool.eq_false_iff.mpr fun hdigit => ?_
  simp only [startsName, reduceCtorEq, decide_false, Bool.false_and, Bool.or_false, Bool.or_eq_true,
    decide_eq_true_eq] at h
  obtain rfl | h := h
  · cases hdigit
  · rw [not_isLetter_of_isDigit hdigit] at h
    cases h

theorem isSoft_of_startsName (h : startsName .python c) : isSoft .python c := by
  have hquote : ['"', '\'', '\n', '\r'].contains c = false := by
    refine Bool.eq_false_iff.mpr fun hmem => not_mem_others h ?_
    have hsub : ['"', '\'', '\n', '\r'] ⊆ others := by simp [others]
    exact hsub (List.contains_iff_mem.mp hmem)
  have hpunct : (punctuators .python).all fun q => !q.toList.contains c := by
    refine List.all_eq_true.mpr fun q hq => ?_
    have hnone : (punctuators .python).all fun q => q.toList.all fun i => !startsName .python i := by
      decide +kernel
    rw [Bool.not_eq_true', Bool.eq_false_iff]
    intro hmem
    have hno := List.all_eq_true.mp (List.all_eq_true.mp hnone q hq) c (List.contains_iff_mem.mp hmem)
    rw [h] at hno
    cases hno
  rw [isSoft, not_isDigit_of_startsName h, hquote, hpunct]
  rfl

theorem continuesName_of_startsName (h : startsName .python c) : continuesName .python c :=
  continuesName_of_ne_hash h nofun

theorem not_isQuote_of_continuesName (h : continuesName .python c) : isQuote c = false := by
  refine Bool.eq_false_iff.mpr fun hquote => ?_
  simp only [isQuote, Bool.or_eq_true, decide_eq_true_eq] at hquote
  obtain rfl | rfl := hquote
  · exact absurd h (by decide +kernel)
  · exact absurd h (by decide +kernel)

theorem stringMark_of_unquoted (h : ∀ i ∈ r, isQuote i = false) : stringMark r = 0 := by
  rw [stringMark_eq]
  refine if_neg fun hquote => ?_
  simp only [Bool.and_eq_true, Option.any_eq_true] at hquote
  obtain ⟨-, i, hi, hquote⟩ := hquote
  have hmem : i ∈ r := List.mem_of_mem_drop (List.mem_of_mem_head? hi)
  rw [h i hmem] at hquote
  cases hquote

theorem numberLength_digits {hex : Bool} (hd : ∀ c ∈ ds, c.isDigit)
    (hr : ∀ i, r.head? = some i → inNumber i = false) : numberLength hex (ds ++ r) = ds.length := by
  induction ds with
  | nil => exact numberLength_eq_zero.mpr hr
  | cons c ds ih =>
    have hdigit := hd c List.mem_cons_self
    have hin : inNumber c := by simp [inNumber, Char.isAlphanum, hdigit]
    have hsign : hasSign hex c (ds ++ r) = false := by
      have hc : c ≠ 'e' ∧ c ≠ 'E' := by
        constructor
        · rintro rfl
          cases hdigit
        · rintro rfl
          cases hdigit
      simp [hasSign, hc]
    rw [List.cons_append, numberLength_next hin hsign, ih fun i hi => hd i (List.mem_cons_of_mem _ hi),
      List.length_cons, Nat.add_comm]

end Token

namespace Shard

open Token

variable {p : List Char → Prop} {s : Shard} {ss : List Shard} {cs r : List Char} {c : Char}

/-- A name of Python, keyword or not. -/
def IsName (cs : List Char) : Prop :=
  ∃ c u, cs = c :: u ∧ startsName .python c ∧ ∀ i ∈ u, continuesName .python i

instance : DecidablePred IsName := fun cs =>
  match cs with
  | [] => isFalse (by rintro ⟨c, u, h, -⟩; cases h)
  | c :: u => decidable_of_iff (startsName .python c ∧ u.all (continuesName .python)) (by
      rw [List.all_eq_true]
      refine ⟨fun h => ⟨c, u, rfl, h⟩, ?_⟩
      rintro ⟨c', u', h, hname⟩
      obtain ⟨rfl, rfl⟩ := List.cons.inj h
      exact hname)

def name (cs : List Char) : Shard := ⟨.token .ident, cs, []⟩

def number (n : Nat) : Shard := ⟨.token .number, (toString n).toList, []⟩

def mark (c : Char) : Shard := ⟨.token .punct, [c], []⟩

def space : Shard := ⟨.blank, [' '], []⟩

/-- What a name ends in front of. -/
def EndsName (r : List Char) : Prop :=
  ∀ i, r.head? = some i → continuesName .python i = false ∧ isQuote i = false

/-- What a number ends in front of. -/
def EndsNumber (r : List Char) : Prop := ∀ i, r.head? = some i → inNumber i = false

theorem IsName.not_isQuote (h : IsName cs) : ∀ i ∈ cs, isQuote i = false := by
  obtain ⟨c, u, rfl, hc, hu⟩ := h
  refine List.forall_mem_cons.mpr ⟨not_isQuote_of_continuesName ?_, fun i hi => ?_⟩
  · exact continuesName_of_startsName hc
  · exact not_isQuote_of_continuesName (hu i hi)

theorem stands_name (h : IsName cs) (hr : EndsName r) : Stands .python true (name cs) r := by
  have hquote := h.not_isQuote
  obtain ⟨c, u, rfl, hc, hu⟩ := h
  have hothers := not_mem_others hc
  have hnumber : startsNumber c (u ++ r) = false := by
    have hpoint : c ≠ '.' := by
      rintro rfl
      exact hothers (by decide)
    simp [startsNumber, not_isDigit_of_startsName hc, hpoint]
  have hlength : ((u ++ r).takeWhile (continuesName .python)).length = u.length := by
    rw [List.takeWhile_append_of_pos hu]
    cases r with
    | nil => simp
    | cons i r => simp [(hr i rfl).1]
  have hmark : stringMark (c :: (u ++ r)) = 0 := by
    refine stringMark_eq_zero (a := c :: u) (r := []) ?_ (fun i hi => by cases hi) (.inr fun i hi => ?_)
    · rw [List.append_nil]
      exact stringMark_of_unquoted hquote
    · have hmark : isMark i = false := by
        refine Bool.eq_false_iff.mpr fun hmark => ?_
        have hnot := (hr i hi).1
        rw [continuesName_of_isMark hmark] at hnot
        cases hnot
      simp [hmark, (hr i hi).2]
  have hliteral : opensLiteral .python c (u ++ r) = false := by
    have hdouble : c ≠ '"' := by
      rintro rfl
      exact hothers (by decide)
    have hsingle : c ≠ '\'' := by
      rintro rfl
      exact hothers (by decide)
    simp [opensLiteral, hmark, hdouble, hsingle]
  have hblank : isBlank c = false := by
    refine Bool.eq_false_iff.mpr fun hb => hothers ?_
    simp only [isBlank, Bool.or_eq_true, decide_eq_true_eq] at hb
    rcases hb with ((((rfl | rfl) | rfl) | rfl) | rfl) | rfl <;> decide
  have hgap : opensGap .python c (u ++ r) = false := by
    have hhash : c ≠ '#' := by
      rintro rfl
      exact hothers (by decide)
    have hslash : c ≠ '\\' := by
      rintro rfl
      exact hothers (by decide)
    simp [opensGap, hhash, hslash]
  refine ⟨c, u, rfl, ?_⟩
  rw [lexeme_token hblank hgap, tokenLexeme_name hliteral hnumber hc, hlength]
  rfl

theorem stands_number (n : Nat) (hr : EndsNumber r) : Stands .python true (number n) r := by
  have h : ∀ c ∈ (toString n).toList, c.isDigit := by
    intro c hc
    refine Nat.isDigit_of_mem_toDigits (b := 10) (n := n) (by decide) (by decide) ?_
    simpa using hc
  have hcs : (toString n).toList ≠ [] := by
    rw [show toString n = n.repr from rfl, Nat.toList_repr]
    exact Nat.toDigits_ne_nil
  unfold number
  generalize (toString n).toList = cs at h hcs
  obtain ⟨c, u, rfl⟩ := List.exists_cons_of_ne_nil hcs
  have hc := h c List.mem_cons_self
  have hstarts : startsNumber c (u ++ r) := by simp [startsNumber, hc]
  have hne {k : Char} (hk : k.isDigit = false) : c ≠ k := by
    rintro rfl
    rw [hc] at hk
    cases hk
  have hliteral : opensLiteral .python c (u ++ r) = false := by
    simp [opensLiteral, stringMark_of_not_isMark (isMark_eq_false_of_startsNumber hstarts),
      hne (show '"'.isDigit = false from rfl), hne (show '\''.isDigit = false from rfl)]
  have hblank : isBlank c = false := by
    refine Bool.eq_false_iff.mpr fun hb => ?_
    simp only [isBlank, Bool.or_eq_true, decide_eq_true_eq] at hb
    rcases hb with ((((rfl | rfl) | rfl) | rfl) | rfl) | rfl <;> cases hc
  have hgap : opensGap .python c (u ++ r) = false := by
    simp [opensGap, hne (show '#'.isDigit = false from rfl), hne (show '\\'.isDigit = false from rfl)]
  refine ⟨c, u, rfl, ?_⟩
  have hlength : numberLength (isHex (c :: (u ++ r))) (c :: (u ++ r)) = u.length + 1 :=
    show numberLength _ ((c :: u) ++ r) = (c :: u).length from numberLength_digits h hr
  rw [lexeme_token hblank hgap, tokenLexeme_number hliteral hstarts, hlength]
  rfl

theorem stands_mark (h : c ∈ ['(', ')', ',', ';']) : Stands .python true (mark c) r := by
  refine ⟨c, [], rfl, ?_⟩
  simp only [List.mem_cons, List.not_mem_nil, or_false] at h
  obtain rfl | rfl | rfl | rfl := h
  · rfl
  · rfl
  · rfl
  · rfl

theorem stands_space : Stands .python true space r := ⟨' ', [], rfl, rfl⟩

/-- The colon in front of a blank is no part of an assignment. -/
theorem stands_colon : Stands .python true (mark ':') (' ' :: r) := ⟨':', [], rfl, rfl⟩

/-- A word goes on with nothing that a name and a number go on with. -/
theorem Stands.ends (h : Stands .python true s r) (hw : s.isWord) {i : Char} (hi : r.head? = some i) :
    continuesName .python i = false ∨ inNumber i = false := by
  obtain ⟨c, u, ht, hlex⟩ := h
  have hpiece : (lexeme .python true c (u ++ r)).piece = s.piece := congrArg Lexeme.piece hlex
  have hmore : (lexeme .python true c (u ++ r)).more = u.length := congrArg Lexeme.more hlex
  unfold isWord at hw
  rw [← hpiece] at hw
  generalize hcs : u ++ r = cs at hpiece hmore hw
  have hfront := @front_lexeme .python true c cs
  generalize lexeme .python true c cs = x at hpiece hmore hfront hw
  cases hfront with
  | token hb hg =>
    have htold := @told_tokenLexeme .python true c cs
    generalize tokenLexeme .python true c cs = x at hpiece hmore htold hw
    cases htold with
    | marked h => cases hw
    | string hm h => cases hw
    | punct hl hn hs h => cases hw
    | number hl h =>
      have hpos : 0 < numberLength (isHex (c :: cs)) (c :: cs) := pos_of_startsNumber h
      have hlength : numberLength (isHex (c :: cs)) (c :: cs) = u.length + 1 := by
        dsimp only at hmore
        omega
      refine .inr (@not_inNumber_behind i (c :: cs) (isHex (c :: cs)) ?_)
      rw [hlength, List.drop_succ_cons, ← hcs, List.drop_left, hi]
    | name hl hn h =>
      subst hcs
      exact .inl (not_of_length_takeWhile hmore hi)
  | _ => cases hw

/-- A shard with the text of a name is one. -/
theorem Stands.piece_ident (h : Stands .python true s r) (hs : IsName s.text) :
    s.piece = .token .ident := by
  have hq := hs.not_isQuote
  obtain ⟨c, u, ht, hc, -⟩ := hs
  rw [ht] at hq
  obtain ⟨c', u', ht', hlex⟩ := h
  obtain ⟨rfl, rfl⟩ := List.cons.inj (ht'.symm.trans ht)
  have hpiece : (lexeme .python true c' (u' ++ r)).piece = s.piece := congrArg Lexeme.piece hlex
  have hmore : (lexeme .python true c' (u' ++ r)).more = u'.length := congrArg Lexeme.more hlex
  have hothers {k : Char} (hk : k ∈ others) : c' ≠ k := fun heq => not_mem_others hc (heq ▸ hk)
  generalize hcs : u' ++ r = cs at hpiece hmore
  have hfront := @front_lexeme .python true c' cs
  generalize lexeme .python true c' cs = x at hpiece hmore hfront
  cases hfront with
  | token hb hg =>
    have htold := @told_tokenLexeme .python true c' cs
    generalize tokenLexeme .python true c' cs = x at hpiece hmore htold
    cases htold with
    | marked hm =>
      have hquote := isQuote_of_stringMark hm
      have hle : stringMark (c' :: cs) ≤ u'.length := hmore ▸ Nat.le_add_right _ _
      generalize stringMark (c' :: cs) = n at hquote hle
      have hlt : n < (c' :: u').length := Nat.lt_succ_of_le hle
      rw [← hcs, ← List.cons_append, List.getD_eq_getElem?_getD, List.getElem?_append_left hlt,
        List.getElem?_eq_getElem hlt, Option.getD_some, hq _ (List.getElem_mem hlt)] at hquote
      cases hquote
    | string hm h =>
      rcases h with h | h
      · exact absurd h (hothers (by decide))
      · exact absurd h (hothers (by decide))
    | number hl hn =>
      have hpoint := hothers (show '.' ∈ others by decide)
      simp [startsNumber, not_isDigit_of_startsName hc, hpoint] at hn
    | name hl hn h => exact hpiece.symm
    | punct hl hn hs h =>
      rw [hc] at h
      cases h
  | blank hb =>
    simp only [isBlank, Bool.or_eq_true, decide_eq_true_eq] at hb
    rcases hb with ((((hb | hb) | hb) | hb) | hb) | hb <;> exact absurd hb (hothers (by decide))
  | hash | feed | lastReturn | «return» => exact absurd rfl (hothers (by decide))

/-- Neither a blank nor a comment starts as a number goes on. -/
theorem Stands.gap (h : Stands .python true s r) (hs : s.isToken = false) :
    ∃ c u, s.text = c :: u ∧ inNumber c = false := by
  obtain ⟨c, u, ht, hlex⟩ := h
  refine ⟨c, u, ht, ?_⟩
  have hpiece : (lexeme .python true c (u ++ r)).piece = s.piece := congrArg Lexeme.piece hlex
  generalize u ++ r = cs at hpiece
  have hfront := @front_lexeme .python true c cs
  generalize lexeme .python true c cs = x at hpiece hfront
  cases hfront with
  | token hb hg =>
    obtain ⟨kind, hk⟩ := @piece_tokenLexeme .python true c cs
    have htoken := isToken_iff.mpr ⟨kind, hpiece.symm.trans hk⟩
    rw [hs] at htoken
    cases htoken
  | blank hb =>
    simp only [isBlank, Bool.or_eq_true, decide_eq_true_eq] at hb
    rcases hb with ((((rfl | rfl) | rfl) | rfl) | rfl) | rfl <;> decide
  | hash | feed | lastReturn | «return» => rfl

/-- In front of what fulfils `p`, a text is cut into the shards that it was put together from. -/
def Reads (p : List Char → Prop) (ss : List Shard) : Prop :=
  ∀ r, p r → pieces (textOf ss ++ r) = ss ++ pieces r

theorem reads_nil : Reads p [] := fun _ _ => rfl

theorem Reads.cons (h : Reads p ss) (hs : ∀ r, p r → Stands .python true s (textOf ss ++ r)) :
    Reads p (s :: ss) := by
  intro r hr
  rw [textOf_cons, List.append_assoc, (hs r hr).pieces, h r hr, List.cons_append]

theorem Reads.mark (h : Reads p ss) (hc : c ∈ ['(', ')', ',', ';']) : Reads p (mark c :: ss) :=
  h.cons fun _ _ => stands_mark hc

theorem Reads.space (h : Reads p ss) : Reads p (space :: ss) := h.cons fun _ _ => stands_space

theorem Reads.colon (h : Reads p (Shard.space :: ss)) : Reads p (Shard.mark ':' :: Shard.space :: ss) :=
  h.cons fun _ _ => stands_colon

/-- A row begins with something that neither a name nor a number goes on with. -/
def BeginsApart (ss : List Shard) : Prop := ∃ c ∈ [' ', '(', ')', ',', ':', ';'], ∃ u, textOf ss = c :: u

theorem beginsApart_mark (h : c ∈ ['(', ')', ',', ':', ';']) : BeginsApart (mark c :: ss) :=
  ⟨c, List.mem_cons_of_mem _ h, _, rfl⟩

theorem beginsApart_space : BeginsApart (space :: ss) := ⟨' ', List.mem_cons_self, _, rfl⟩

theorem BeginsApart.endsName (h : BeginsApart ss) : EndsName (textOf ss ++ r) := by
  obtain ⟨c, hc, u, ht⟩ := h
  intro i hi
  rw [ht] at hi
  obtain rfl : c = i := Option.some.inj hi
  simp only [List.mem_cons, List.not_mem_nil, or_false] at hc
  rcases hc with rfl | rfl | rfl | rfl | rfl | rfl <;> decide

theorem BeginsApart.endsNumber (h : BeginsApart ss) : EndsNumber (textOf ss ++ r) := by
  obtain ⟨c, hc, u, ht⟩ := h
  intro i hi
  rw [ht] at hi
  obtain rfl : c = i := Option.some.inj hi
  simp only [List.mem_cons, List.not_mem_nil, or_false] at hc
  rcases hc with rfl | rfl | rfl | rfl | rfl | rfl <;> decide

theorem Reads.name (h : Reads p ss) (hcs : IsName cs) (ha : BeginsApart ss) : Reads p (name cs :: ss) :=
  h.cons fun _ _ => stands_name hcs ha.endsName

theorem Reads.number (h : Reads p ss) (n : Nat) (ha : BeginsApart ss) : Reads p (number n :: ss) :=
  h.cons fun _ _ => stands_number n ha.endsNumber

theorem reads_number (n : Nat) : Reads EndsNumber [Shard.number n] :=
  reads_nil.cons fun _ hr => stands_number n hr

end Shard

end Scratchpad
