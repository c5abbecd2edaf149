import Scratchpad.Proofs.Token.Extent
import Scratchpad.Proofs.Token.Front

/-!
How much of a text a token takes: a name, a number, a regular expression or a punctuator reaches as
far as it did when what stands behind it changes into something that it does not go on with, and a
piece without faults lies within the text.
-/
namespace Scratchpad

namespace Token

variable {d : Dialect} {f f' : Bool} {c i : Char} {a r r' u v w w' : List Char} {p : Char → Bool}

/-- A character that no longer punctuator, no fraction, no literal and no joint goes on with. -/
def isSoft (d : Dialect) (i : Char) : Bool :=
  !i.isDigit && !(['"', '\'', '\n', '\r'].contains i)
    && (punctuators d).all fun q => !q.toList.contains i

/-- A character that neither a name nor a number goes on with. -/
def endsWord (d : Dialect) (i : Char) : Bool := !continuesName d i && !i.isAlphanum && isSoft d i

/-- What follows starts with the same character as before, or with one that fulfils `p`. -/
def Meets (p : Char → Bool) (r r' : List Char) : Prop :=
  r'.head? = r.head? ∨ ∀ i, r'.head? = some i → p i

theorem Meets.imp {q : Char → Bool} (h : Meets p r r') (hpq : ∀ i, p i → q i) : Meets q r r' :=
  h.imp_right fun h i hi => hpq i (h i hi)

theorem not_of_length_takeWhile (h : ((a ++ r).takeWhile p).length = a.length) (hi : r.head? = some i) :
    p i = false := by
  induction a with
  | nil =>
    cases r with
    | nil => cases hi
    | cons c r =>
      obtain rfl : c = i := Option.some.inj hi
      refine Bool.eq_false_iff.mpr fun hp => ?_
      simp [hp] at h
  | cons c a ih =>
    rw [List.cons_append, List.takeWhile_cons] at h
    split at h
    · exact ih (Nat.succ.inj h)
    · cases h

theorem length_takeWhile (h : ((a ++ r).takeWhile p).length = a.length)
    (hr : Meets (fun i => !p i) r r') : ((a ++ r').takeWhile p).length = a.length := by
  have hnone (i : Char) (hi : r'.head? = some i) : p i = false := by
    rcases hr with hr | hr
    · exact not_of_length_takeWhile h (hr.symm.trans hi)
    · simpa using hr i hi
  induction a with
  | nil =>
    cases r' with
    | nil => rfl
    | cons c r' => simp [hnone c rfl]
  | cons c a ih =>
    rw [List.cons_append, List.takeWhile_cons] at h ⊢
    by_cases hp : p c
    · simp only [hp, if_true, List.length_cons, Nat.add_right_cancel_iff] at h ⊢
      exact ih h
    · simp [hp] at h

/-- A character that a number goes on with. -/
def inNumber (c : Char) : Bool := c.isAlphanum || c = '_' || c = '.'

/-- A sign that belongs to the exponent of a number. -/
def isSign (s : Char) : Bool := s = '+' || s = '-'

/-- The letter `c` of an exponent has its sign behind it. -/
def hasSign (hex : Bool) (c : Char) (r : List Char) : Bool :=
  !hex && (c = 'e' || c = 'E') && r.head?.any isSign

theorem numberLength_stop {hex : Bool} (hc : inNumber c = false) : numberLength hex (c :: r) = 0 := by
  cases r <;> simp_all [numberLength, inNumber]

theorem numberLength_sign {hex : Bool} (hc : inNumber c) (hs : hasSign hex c r) :
    numberLength hex (c :: r) = 2 + numberLength hex r.tail := by
  cases r with
  | nil => simp [hasSign] at hs
  | cons s r =>
    rw [numberLength]
    exact (if_pos hc).trans (if_pos hs)

theorem numberLength_next {hex : Bool} (hc : inNumber c) (hs : hasSign hex c r = false) :
    numberLength hex (c :: r) = 1 + numberLength hex r := by
  cases r with
  | nil =>
    rw [numberLength]
    exact if_pos hc
  | cons s r =>
    rw [numberLength]
    exact (if_pos hc).trans (if_neg (Bool.eq_false_iff.mp hs))

theorem numberLength_eq_zero {hex : Bool} :
    numberLength hex r = 0 ↔ ∀ i, r.head? = some i → inNumber i = false := by
  cases r with
  | nil => simp [numberLength]
  | cons c r =>
    simp only [List.head?_cons, Option.some.injEq, forall_eq']
    cases hc : inNumber c with
    | false => simp [numberLength_stop hc]
    | true =>
      cases hs : hasSign hex c r with
      | true => simp [numberLength_sign hc hs]
      | false => simp [numberLength_next hc hs]

/-- A number is taken to its end. -/
theorem not_inNumber_behind {hex : Bool} (h : (r.drop (numberLength hex r)).head? = some i) :
    inNumber i = false := by
  induction r using numberLength.induct hex with
  | case1 => cases h
  | case2 c hc =>
    rw [numberLength, if_pos hc] at h
    cases h
  | case3 c hc =>
    rw [numberLength, if_neg hc] at h
    obtain rfl : c = i := Option.some.inj h
    exact Bool.eq_false_iff.mpr hc
  | case4 c s r hc hs ih =>
    rw [numberLength, if_pos hc, if_pos hs, Nat.add_comm, List.drop_succ_cons, List.drop_succ_cons] at h
    exact ih h
  | case5 c s r hc hs ih =>
    rw [numberLength, if_pos hc, if_neg hs, Nat.add_comm, List.drop_succ_cons] at h
    exact ih h
  | case6 c s r hc =>
    rw [numberLength, if_neg hc] at h
    obtain rfl : c = i := Option.some.inj h
    exact Bool.eq_false_iff.mpr hc

theorem not_inNumber_of_endsWord (h : endsWord d i) : inNumber i = false := by
  refine Bool.eq_false_iff.mpr fun hi => ?_
  simp only [inNumber, Bool.or_eq_true, decide_eq_true_eq] at hi
  rcases hi with (hi | rfl) | rfl
  · rw [endsWord, hi, Bool.not_true, Bool.and_false, Bool.false_and] at h
    cases h
  · cases d <;> exact absurd h (by decide)
  · cases d <;> exact absurd h (by decide)

theorem not_isSign_of_endsWord (h : endsWord d i) : isSign i = false := by
  refine Bool.eq_false_iff.mpr fun hi => ?_
  simp only [isSign, Bool.or_eq_true, decide_eq_true_eq] at hi
  rcases hi with rfl | rfl <;> cases d <;> exact absurd h (by decide)

theorem length_number {hex : Bool} (h : numberLength hex (a ++ r) = a.length)
    (hr : Meets (endsWord d) r r') : numberLength hex (a ++ r') = a.length := by
  induction hn : a.length using Nat.strongRecOn generalizing a with
  | ind n ih =>
    have hless {t : List Char} (ht : t.length < n) (h : numberLength hex (t ++ r) = t.length) :
        numberLength hex (t ++ r') = t.length := ih _ ht h rfl
    match a with
    | [] =>
      have hnone := numberLength_eq_zero.mp h
      rw [← hn]
      refine numberLength_eq_zero.mpr fun i hi => ?_
      rcases hr with hr | hr
      · exact hnone i (hr.symm.trans hi)
      · exact not_inNumber_of_endsWord (hr i hi)
    | [c] =>
      rw [List.cons_append, List.nil_append] at h ⊢
      cases hc : inNumber c with
      | false => simp [numberLength_stop hc] at h
      | true =>
        cases hs : hasSign hex c r with
        | true =>
          rw [numberLength_sign hc hs, List.length_singleton] at h
          omega
        | false =>
          have hs' : hasSign hex c r' = false := by
            rcases hr with hr | hr
            · rw [hasSign, hr]
              exact hs
            · cases hi : r'.head? with
              | none => simp [hasSign, hi]
              | some i => simp [hasSign, hi, not_isSign_of_endsWord (hr i hi)]
          rw [numberLength_next hc hs, List.length_singleton] at h
          have hzero := hless (t := []) (by rw [← hn]; simp) (by simpa using h)
          rw [List.nil_append, List.length_nil] at hzero
          rw [numberLength_next hc hs', hzero, ← hn, List.length_singleton]
    | c :: s :: a =>
      have hsame : hasSign hex c (s :: a ++ r') = hasSign hex c (s :: a ++ r) := rfl
      rw [List.length_cons, List.length_cons] at hn
      rw [List.cons_append] at h ⊢
      cases hc : inNumber c with
      | false =>
        rw [numberLength_stop hc, List.length_cons] at h
        omega
      | true =>
        cases hs : hasSign hex c (s :: a ++ r) with
        | true =>
          rw [numberLength_sign hc hs, List.length_cons, List.length_cons, List.cons_append,
            List.tail_cons] at h
          rw [numberLength_sign hc (hsame.trans hs), List.cons_append, List.tail_cons,
            hless (by omega) (by omega)]
          omega
        | false =>
          rw [numberLength_next hc hs, List.length_cons] at h
          rw [numberLength_next hc (hsame.trans hs),
            hless (by rw [List.length_cons]; omega) (by omega), List.length_cons]
          omega

theorem regexLength_char {inClass : Bool} (hn : c ≠ '\n') (hb : c ≠ '\\') (ho : c ≠ '[')
    (hc : c ≠ ']') (hs : c ≠ '/') :
    regexLength inClass (c :: r) = (regexLength inClass r).map (1 + ·) :=
  regexLength.eq_8 _ _ _ hn (fun h => absurd h hb) (fun _ _ h => absurd h hb) ho hc hs

theorem length_of_map {x : Option Nat} {n m : Nat} (h : x.map (n + ·) = some (m + n)) : x = some m := by
  obtain ⟨k, hk, hkn⟩ := Option.map_eq_some_iff.mp h
  rw [hk]
  congr 1
  omega

theorem pos_of_regexLength {inClass : Bool} {n : Nat} (h : regexLength inClass r = some n) : 0 < n := by
  unfold regexLength at h
  have hmap {x : Option Nat} {k : Nat} (hk : 0 < k) (h : x.map (k + ·) = some n) : 0 < n := by
    obtain ⟨m, -, hm⟩ := Option.map_eq_some_iff.mp h
    omega
  split at h
  · cases h
  · cases h
  · cases h
  · split at h
    · cases h
    · exact hmap (by decide) h
  · exact hmap (by decide) h
  · exact hmap (by decide) h
  · split at h
    · exact hmap (by decide) h
    · have hn := Option.some.inj h
      omega
  · exact hmap (by decide) h

theorem not_isQuote_of_isSoft (h : isSoft d i) : i ≠ '"' ∧ i ≠ '\'' := by
  constructor
  · rintro rfl
    cases d <;> exact absurd h (by decide)
  · rintro rfl
    cases d <;> exact absurd h (by decide)

theorem not_isAlphanum_of_endsWord (h : endsWord d i) : i.isAlphanum = false := by
  simp only [endsWord, Bool.and_eq_true, Bool.not_eq_true'] at h
  exact h.1.2

theorem isSoft_of_endsWord (h : endsWord d i) : isSoft d i := by
  simp only [endsWord, Bool.and_eq_true] at h
  exact h.2

theorem not_isAlpha_of_endsWord (h : endsWord d i) : i.isAlpha = false := by
  simp only [endsWord, Bool.and_eq_true, Bool.not_eq_true', Char.isAlphanum, Bool.or_eq_false_iff] at h
  exact h.1.2.1

theorem length_regex {inClass : Bool} (h : regexLength inClass (a ++ r) = some a.length)
    (hr : Meets (endsWord d) r r') : regexLength inClass (a ++ r') = some a.length := by
  induction inClass, a using regexLength.induct with
  | case1 => exact absurd (pos_of_regexLength h) (Nat.lt_irrefl _)
  | case2 => rw [List.cons_append, regexLength] at h; cases h
  | case3 =>
    rw [List.cons_append, List.nil_append] at h
    cases r with
    | nil => rw [regexLength] at h; cases h
    | cons c r =>
      rw [regexLength] at h
      split at h
      · cases h
      · obtain ⟨n, -, hn⟩ := Option.map_eq_some_iff.mp h
        rw [List.length_singleton] at hn
        omega
  | case4 => simp [regexLength] at h
  | case5 inClass c a hc ih =>
    rw [List.cons_append, List.cons_append, regexLength, if_neg hc, List.length_cons, List.length_cons] at h ⊢
    rw [ih (length_of_map h), Option.map_some, Nat.add_comm]
  | case6 inClass a ih | case7 inClass a ih =>
    rw [List.cons_append, regexLength, List.length_cons] at h ⊢
    rw [ih (length_of_map h), Option.map_some, Nat.add_comm]
  | case8 a ih =>
    rw [List.cons_append, regexLength, if_pos rfl, List.length_cons] at h ⊢
    rw [ih (length_of_map h), Option.map_some, Nat.add_comm]
  | case9 inClass a hc =>
    rw [List.cons_append, regexLength, if_neg hc, List.length_cons, Option.some.injEq] at h ⊢
    have hflags : ((a ++ r).takeWhile Char.isAlpha).length = a.length := by omega
    have hflags' := length_takeWhile hflags (hr.imp fun i hi => by
      rw [not_isAlpha_of_endsWord hi]
      rfl)
    omega
  | case10 inClass c a hn he he' ho hc hs ih =>
    have hb : c ≠ '\\' := fun hb => by
      cases a with
      | nil => exact he hb rfl
      | cons d a => exact he' d a hb rfl
    rw [List.cons_append, regexLength_char hn hb ho hc hs, List.length_cons] at h ⊢
    rw [ih (length_of_map h), Option.map_some, Nat.add_comm]

theorem prefix_of_prefix_append {q : List Char} (hi : i ∉ q) (h : q <+: a ++ i :: u) : q <+: a := by
  by_cases hlen : q.length ≤ a.length
  · exact List.prefix_of_prefix_length_le h (List.prefix_append _ _) hlen
  · have hpre : a ++ [i] <+: a ++ i :: u := ⟨u, by simp⟩
    have hmem := List.prefix_of_prefix_length_le hpre h (by simp; omega)
    exact absurd (hmem.subset (by simp)) hi

theorem not_isDigit_of_isSoft (h : isSoft d i) : i.isDigit = false := by
  simp only [isSoft, Bool.and_eq_true, Bool.not_eq_true'] at h
  exact h.1.1

/-- No punctuator has a soft character in it. -/
theorem not_mem_punctuator {q : String} (hq : q ∈ punctuators d) (hi : isSoft d i) : i ∉ q.toList := by
  simp only [isSoft, Bool.and_eq_true, List.all_eq_true] at hi
  simpa using hi.2 q hq

/-- The punctuator in front of a text. -/
def front? (d : Dialect) (cs : List Char) : Option String :=
  (punctuators d).find? fun q => q.toList.isPrefixOf cs

theorem pos_punctLength (cs : List Char) : 0 < punctLength d cs := by
  have hall : ∀ q ∈ punctuators d, 0 < q.length := by cases d <;> decide
  unfold punctLength
  split
  · next q hq =>
    split
    · decide
    · exact hall q (List.mem_of_find?_eq_some hq)
  · decide

theorem script_of_point {q : String} (hq : q.toList = ['?', '.']) (h : q ∈ punctuators d) :
    d = .script := by
  cases d with
  | script => rfl
  | python =>
    have hnone : ∀ q ∈ punctuators .python, q.toList ≠ ['?', '.'] := by decide
    exact absurd hq (hnone q h)

section

variable {q : String} (hi : isSoft d i)

include hi

/-- A soft character ends what a punctuator can be. -/
theorem front?_of_soft (h : front? d (a ++ w) = some q) (hq : q.toList <+: a) :
    front? d (a ++ i :: u) = some q := by
  obtain ⟨-, before, after, hsplit, hfirst⟩ := List.find?_eq_some_iff_append.mp h
  refine List.find?_eq_some_iff_append.mpr ⟨?_, before, after, hsplit, fun p hp => ?_⟩
  · exact List.isPrefixOf_iff_prefix.mpr (hq.trans (List.prefix_append _ _))
  · have hnot := hfirst p hp
    simp only [Bool.not_eq_true', Bool.eq_false_iff, ne_eq, List.isPrefixOf_iff_prefix] at hnot ⊢
    have hmem : p ∈ punctuators d := hsplit ▸ List.mem_append_left _ hp
    exact fun hpre => hnot ((prefix_of_prefix_append (not_mem_punctuator hmem hi) hpre).trans
      (List.prefix_append _ _))

theorem front?_of_soft_none (h : ∀ q ∈ punctuators d, ¬q.toList <+: a) :
    front? d (a ++ i :: u) = none := by
  refine List.find?_eq_none.mpr fun p hp hpre => ?_
  exact h p hp (prefix_of_prefix_append (not_mem_punctuator hp hi) (List.isPrefixOf_iff_prefix.mp hpre))

/-- Behind a punctuator that is not part of a longer one a soft character changes nothing; a question
mark with just a point behind it is excluded, for the point can be the one of a fraction. -/
theorem length_punct (h : punctLength d (a ++ (v ++ w)) = a.length)
    (hv : d = .script → a = ['?'] → v ≠ ['.']) :
    punctLength d (a ++ (v ++ i :: u)) = a.length := by
  have hdigit := not_isDigit_of_isSoft hi
  rw [← List.append_assoc] at h ⊢
  unfold punctLength at h ⊢
  cases hfront : front? d (a ++ v ++ w) with
  | none =>
    have hnone := List.find?_eq_none.mp hfront
    have hnew : front? d (a ++ v ++ i :: u) = none := front?_of_soft_none hi fun q hq hpre =>
      hnone q hq (List.isPrefixOf_iff_prefix.mpr (hpre.trans (List.prefix_append _ _)))
    rw [← front?, hfront] at h
    rw [← front?, hnew]
    exact h
  | some q =>
    have hpre : q.toList <+: a ++ v ++ w := List.isPrefixOf_iff_prefix.mp
      (List.find?_some (p := fun q : String => q.toList.isPrefixOf (a ++ v ++ w)) hfront)
    rw [← front?, hfront] at h
    dsimp only at h
    by_cases hpoint : isConditionalPoint q.toList (a ++ v ++ w) = true
    · rw [if_pos hpoint] at h
      obtain ⟨c, rfl⟩ := List.length_eq_one_iff.mp h.symm
      obtain ⟨hq, hd⟩ : q.toList = ['?', '.'] ∧ startsWithDigit (([c] ++ v ++ w).drop 2) := by
        simpa [isConditionalPoint] using hpoint
      have hscript : d = .script := script_of_point hq (List.mem_of_find?_eq_some hfront)
      cases v with
      | nil =>
        rw [hq] at hpre
        obtain ⟨rfl, -⟩ := List.cons_prefix_cons.mp hpre
        have hnew : front? d (['?'] ++ [] ++ i :: u) = none :=
          front?_of_soft_none hi (by cases d <;> decide)
        rw [← front?, hnew]
        rfl
      | cons d v =>
        rw [hq] at hpre
        obtain ⟨rfl, hrest⟩ := List.cons_prefix_cons.mp hpre
        have hrest : ['.'] <+: d :: (v ++ w) := hrest
        obtain ⟨rfl, -⟩ := List.cons_prefix_cons.mp hrest
        have hnew : front? d (['?'] ++ '.' :: v ++ i :: u) = some q :=
          front?_of_soft hi hfront (by rw [hq]; exact ⟨v, rfl⟩)
        have hdigit' : startsWithDigit ((['?'] ++ '.' :: v ++ i :: u).drop 2) := by
          cases v with
          | nil => exact absurd rfl (hv hscript rfl)
          | cons d v => exact hd
        rw [← front?, hnew]
        exact if_pos (by simpa [isConditionalPoint, hq] using hdigit')
    · rw [if_neg hpoint] at h
      have hq : q.toList = a := by
        rw [List.append_assoc] at hpre
        have hle := List.prefix_of_prefix_length_le hpre (List.prefix_append _ _) (Nat.le_of_eq h)
        exact hle.eq_of_length h
      have hnew : front? d (a ++ v ++ i :: u) = some q :=
        front?_of_soft hi hfront (hq ▸ List.prefix_append _ _)
      rw [← front?, hnew]
      refine (if_neg fun hcond => hpoint ?_).trans h
      simp only [isConditionalPoint, Bool.and_eq_true, decide_eq_true_eq] at hcond ⊢
      refine ⟨hcond.1, ?_⟩
      have hdrop := hcond.2
      rw [← hq, hcond.1] at hdrop ⊢
      cases v with
      | nil =>
        have hi : i.isDigit := hdrop
        rw [hdigit] at hi
        cases hi
      | cons d v => exact hdrop

end

theorem isHex_cons : isHex (c :: r) ↔ c = '0' ∧ (r.head? = some 'x' ∨ r.head? = some 'X') := by
  cases r with
  | nil => simp [isHex]
  | cons d r =>
    simp only [isHex, List.isPrefixOf_cons_cons, List.isPrefixOf_nil_left, Bool.and_true, Bool.or_eq_true,
      Bool.and_eq_true, beq_iff_eq, List.head?_cons, Option.some.injEq, ← and_or_left,
      eq_comm (a := '0'), eq_comm (a := 'x'), eq_comm (a := 'X')]

/-- Whether a number starts with `c`. -/
def startsNumber (c : Char) (r : List Char) : Bool := c.isDigit || (c = '.' && startsWithDigit r)

theorem pos_of_startsNumber {hex : Bool} (h : startsNumber c r) : 0 < numberLength hex (c :: r) := by
  have hc : inNumber c := by
    simp only [startsNumber, Bool.or_eq_true, Bool.and_eq_true, decide_eq_true_eq] at h
    rcases h with h | ⟨rfl, -⟩
    · simp [inNumber, Char.isAlphanum, h]
    · decide
  refine Nat.pos_of_ne_zero fun hzero => ?_
  rw [numberLength_eq_zero.mp hzero c rfl] at hc
  cases hc

/-- Whether what starts with `c` is a string or a template. -/
def opensLiteral (d : Dialect) (c : Char) (r : List Char) : Bool :=
  (d = .python && stringMark (c :: r) ≠ 0) || c = '"' || c = '\'' || (c = '\x60' && d = .script)

theorem tokenLexeme_quoted (h : c = '"' ∨ c = '\'') :
    tokenLexeme .script f c r = ofExtent (.token .string) 0 (quoted c r) .unterminatedString := by
  simp [tokenLexeme, h]

theorem tokenLexeme_template :
    tokenLexeme .script f '\x60' r
      = ofExtent (.token .template) 0 (template r) .unterminatedTemplate := by
  simp [tokenLexeme]

/-- The string behind `n` letters that mark it, its quote being `quote`. -/
def stringLexeme (n : Nat) (quote : Char) (r : List Char) : Lexeme :=
  ofExtent (.token .string) n (pythonString quote r).1 (pythonString quote r).2

theorem tokenLexeme_marked (h : stringMark (c :: r) ≠ 0) : tokenLexeme .python f c r
    = stringLexeme (stringMark (c :: r)) ((c :: r).getD (stringMark (c :: r)) '"')
      (r.drop (stringMark (c :: r))) := by
  simp [tokenLexeme, h, stringLexeme]

theorem tokenLexeme_string (hm : stringMark (c :: r) = 0) (h : c = '"' ∨ c = '\'') :
    tokenLexeme .python f c r = stringLexeme 0 c r := by
  simp [tokenLexeme, hm, h, stringLexeme]

/-- What starts with `c` if it is no literal in quotes. -/
theorem tokenLexeme_plain (hl : opensLiteral d c r = false) : tokenLexeme d f c r =
    if startsNumber c r then ⟨.token .number, numberLength (isHex (c :: r)) (c :: r) - 1, []⟩
    else if c = '/' && d = .script && f then
      match regexLength false r with
      | some n => ⟨.token .regex, n, []⟩
      | none => ⟨.token .punct, punctLength d (c :: r) - 1, []⟩
    else if startsName d c then ⟨.token .ident, (r.takeWhile (continuesName d)).length, []⟩
    else ⟨.token .punct, punctLength d (c :: r) - 1, []⟩ := by
  simp only [opensLiteral, Bool.or_eq_false_iff, decide_eq_false_iff_not] at hl
  obtain ⟨⟨⟨hmark, hdouble⟩, hsingle⟩, htemplate⟩ := hl
  have hmark : ¬(if d = .python then stringMark (c :: r) else 0) ≠ 0 := by
    simpa using hmark
  unfold tokenLexeme
  dsimp only
  rw [if_neg hmark, if_neg (by simp [hdouble, hsingle]), if_neg (Bool.eq_false_iff.mp htemplate)]
  rfl

theorem tokenLexeme_number (hl : opensLiteral d c r = false) (h : startsNumber c r) :
    tokenLexeme d f c r = ⟨.token .number, numberLength (isHex (c :: r)) (c :: r) - 1, []⟩ :=
  (tokenLexeme_plain hl).trans (if_pos h)

theorem tokenLexeme_regex {n : Nat} (h : regexLength false r = some n) :
    tokenLexeme .script true '/' r = ⟨.token .regex, n, []⟩ := by
  simp [tokenLexeme, h]

theorem tokenLexeme_slash (h : regexLength false r = none) : tokenLexeme .script true '/' r
    = ⟨.token .punct, punctLength .script ('/' :: r) - 1, []⟩ := by
  simp [tokenLexeme, h]

theorem tokenLexeme_name (hl : opensLiteral d c r = false) (hn : startsNumber c r = false)
    (h : startsName d c) :
    tokenLexeme d f c r = ⟨.token .ident, (r.takeWhile (continuesName d)).length, []⟩ := by
  have hslash : ¬(c = '/' && d = .script && f) = true := by
    intro hslash
    simp only [Bool.and_eq_true, decide_eq_true_eq] at hslash
    rw [hslash.1.1, hslash.1.2] at h
    exact absurd h (by decide)
  rw [tokenLexeme_plain hl, if_neg (Bool.eq_false_iff.mp hn), if_neg hslash, if_pos h]

theorem tokenLexeme_punct (hl : opensLiteral d c r = false) (hn : startsNumber c r = false)
    (hs : d = .script → c = '/' → f = false) (h : startsName d c = false) :
    tokenLexeme d f c r = ⟨.token .punct, punctLength d (c :: r) - 1, []⟩ := by
  have hslash : ¬(c = '/' && d = .script && f) = true := by
    intro hslash
    simp only [Bool.and_eq_true, decide_eq_true_eq] at hslash
    exact Bool.eq_false_iff.mp (hs hslash.1.2 hslash.1.1) hslash.2
  rw [tokenLexeme_plain hl, if_neg (Bool.eq_false_iff.mp hn), if_neg hslash,
    if_neg (Bool.eq_false_iff.mp h)]

/-- The tokens that a text can start with. -/
inductive Told (f : Bool) (c : Char) (r : List Char) : Dialect → Lexeme → Prop where
  | quoted (h : c = '"' ∨ c = '\'') :
      Told f c r .script (ofExtent (.token .string) 0 (quoted c r) .unterminatedString)
  | template (h : c = '\x60') :
      Told f c r .script (ofExtent (.token .template) 0 (template r) .unterminatedTemplate)
  | marked (h : stringMark (c :: r) ≠ 0) : Told f c r .python
      (stringLexeme (stringMark (c :: r)) ((c :: r).getD (stringMark (c :: r)) '"')
        (r.drop (stringMark (c :: r))))
  | string (hm : stringMark (c :: r) = 0) (h : c = '"' ∨ c = '\'') :
      Told f c r .python (stringLexeme 0 c r)
  | number {d : Dialect} (hl : opensLiteral d c r = false) (h : startsNumber c r) :
      Told f c r d ⟨.token .number, numberLength (isHex (c :: r)) (c :: r) - 1, []⟩
  | regex {n : Nat} (hc : c = '/') (hf : f) (h : regexLength false r = some n) :
      Told f c r .script ⟨.token .regex, n, []⟩
  | slash (hc : c = '/') (hf : f) (h : regexLength false r = none) :
      Told f c r .script ⟨.token .punct, punctLength .script (c :: r) - 1, []⟩
  | name {d : Dialect} (hl : opensLiteral d c r = false) (hn : startsNumber c r = false)
      (h : startsName d c) : Told f c r d ⟨.token .ident, (r.takeWhile (continuesName d)).length, []⟩
  | punct {d : Dialect} (hl : opensLiteral d c r = false) (hn : startsNumber c r = false)
      (hs : d = .script → c = '/' → f = false) (h : startsName d c = false) :
      Told f c r d ⟨.token .punct, punctLength d (c :: r) - 1, []⟩

theorem told_literal (hl : opensLiteral d c r) : Told f c r d (tokenLexeme d f c r) := by
  cases d with
  | script =>
    by_cases hquote : c = '"' ∨ c = '\''
    · exact tokenLexeme_quoted (f := f) (r := r) hquote ▸ .quoted hquote
    · obtain rfl : c = '\x60' := by
        simp only [opensLiteral, Bool.or_eq_true, Bool.and_eq_true, decide_eq_true_eq, reduceCtorEq,
          false_and, false_or, and_true] at hl
        exact hl.resolve_left hquote
      exact tokenLexeme_template (f := f) (r := r) ▸ .template rfl
  | python =>
    by_cases hmark : stringMark (c :: r) = 0
    · have hquote : c = '"' ∨ c = '\'' := by simpa [opensLiteral, hmark] using hl
      exact tokenLexeme_string (f := f) hmark hquote ▸ .string hmark hquote
    · exact tokenLexeme_marked (f := f) hmark ▸ .marked hmark

theorem told_tokenLexeme : Told f c r d (tokenLexeme d f c r) := by
  cases hl : opensLiteral d c r with
  | true => exact told_literal hl
  | false =>
    cases hn : startsNumber c r with
    | true => exact tokenLexeme_number (f := f) hl hn ▸ .number hl hn
    | false =>
      cases hname : startsName d c with
      | true => exact tokenLexeme_name (f := f) hl hn hname ▸ .name hl hn hname
      | false =>
        by_cases hslash : d = .script ∧ c = '/' ∧ f = true
        · obtain ⟨rfl, rfl, rfl⟩ := hslash
          cases hregex : regexLength false r with
          | some n => exact tokenLexeme_regex hregex ▸ .regex rfl rfl hregex
          | none => exact tokenLexeme_slash hregex ▸ .slash rfl rfl hregex
        · have hs : d = .script → c = '/' → f = false := fun hd hc =>
            Bool.eq_false_iff.mpr fun hf => hslash ⟨hd, hc, hf⟩
          exact tokenLexeme_punct hl hn hs hname ▸ .punct hl hn hs hname

theorem numberLength_le {hex : Bool} : numberLength hex r ≤ r.length := by
  induction r using numberLength.induct hex with
  | case1 => exact Nat.le_refl _
  | case2 c hc => rw [numberLength, if_pos hc]; exact Nat.le_refl _
  | case3 c hc => rw [numberLength, if_neg hc]; exact Nat.zero_le _
  | case4 c s r hc hs ih =>
    rw [numberLength, if_pos hc, if_pos hs, List.length_cons, List.length_cons]
    omega
  | case5 c s r hc hs ih =>
    rw [numberLength, if_pos hc, if_neg hs, List.length_cons]
    omega
  | case6 c s r hc => rw [numberLength, if_neg hc]; exact Nat.zero_le _

theorem le_of_map {x : Option Nat} {k m n : Nat} (h : x.map (k + ·) = some n)
    (hx : ∀ {y}, x = some y → y ≤ m) : n ≤ m + k := by
  obtain ⟨y, hy, rfl⟩ := Option.map_eq_some_iff.mp h
  have hle := hx hy
  omega

theorem regexLength_le {inClass : Bool} {n : Nat} (h : regexLength inClass r = some n) :
    n ≤ r.length := by
  induction inClass, r using regexLength.induct generalizing n with
  | case1 => cases h
  | case2 => rw [regexLength] at h; cases h
  | case3 => rw [regexLength] at h; cases h
  | case4 => simp [regexLength] at h
  | case5 inClass c r hc ih =>
    rw [regexLength, if_neg hc] at h
    exact le_of_map (m := r.length) h ih
  | case6 inClass r ih | case7 inClass r ih =>
    rw [regexLength] at h
    exact le_of_map h ih
  | case8 r ih =>
    rw [regexLength, if_pos rfl] at h
    exact le_of_map h ih
  | case9 inClass r hc =>
    rw [regexLength, if_neg hc] at h
    have hle := (List.takeWhile_prefix (l := r) Char.isAlpha).length_le
    have hn := Option.some.inj h
    rw [List.length_cons]
    omega
  | case10 inClass c r hn he he' ho hc hs ih =>
    rw [regexLength.eq_8 _ _ _ hn he he' ho hc hs] at h
    exact le_of_map h ih

theorem punctLength_le (cs : List Char) (h : cs ≠ []) : punctLength d cs ≤ cs.length := by
  have hpos := List.length_pos_iff.mpr h
  unfold punctLength
  split
  · next q hq =>
    have hpre := List.isPrefixOf_iff_prefix.mp
      (List.find?_some (p := fun q : String => q.toList.isPrefixOf cs) hq)
    split
    · exact hpos
    · exact hpre.length_le
  · exact hpos

theorem sound_of_faults {piece : Piece} {k : Nat} {e : Extent} {fault : Text.Fault}
    (h : (ofExtent piece k e fault).faults = []) : e.Sound := by
  simp only [ofExtent, List.append_eq_nil_iff, Extent.behind] at h
  refine ⟨Decidable.byContradiction fun hc => ?_, by simpa using h.1⟩
  simp [hc] at h

theorem pythonString_pair {quote : Char} (h : startsWithPair quote r) :
    pythonString quote r = ((tripleQuoted quote (r.drop 2)).behind 2, .unterminatedTripleString) :=
  if_pos h

theorem pythonString_lone {quote : Char} (h : startsWithPair quote r = false) :
    pythonString quote r = (quoted quote r, .unterminatedString) := if_neg (Bool.eq_false_iff.mp h)

theorem pos_pythonString {quote : Char} (h : (pythonString quote r).1.Sound) :
    0 < (pythonString quote r).1.length := by
  cases hpair : startsWithPair quote r with
  | true =>
    rw [pythonString_pair hpair, Extent.length_behind]
    omega
  | false =>
    rw [pythonString_lone hpair] at h ⊢
    exact (closes_quoted h).pos

theorem pythonString_le {quote : Char} (h : (pythonString quote r).1.Sound) :
    (pythonString quote r).1.length ≤ r.length := by
  cases hpair : startsWithPair quote r with
  | true =>
    rw [pythonString_pair hpair, Extent.sound_behind] at h
    have hle := (closes_tripleQuoted h).le
    have hpos := (closes_tripleQuoted h).pos
    rw [List.length_drop] at hle
    rw [pythonString_pair hpair, Extent.length_behind]
    omega
  | false =>
    rw [pythonString_lone hpair] at h ⊢
    exact (closes_quoted h).le

theorem bounded_pythonString {quote : Char} : (pythonString quote r).1.Bounded := by
  unfold pythonString
  split
  · exact (Extent.bounded_of_nil inner_tripleQuoted).behind
  · exact Extent.bounded_of_nil inner_quoted

/-- A string ends where it does whatever stands behind it, but for one more quote behind an empty
one. -/
theorem pythonString_stays {quote : Char} (h : (pythonString quote (u ++ r)).1.Sound)
    (hlen : (pythonString quote (u ++ r)).1.length = u.length) (hr : Meets (· ≠ quote) r r') :
    pythonString quote (u ++ r') = pythonString quote (u ++ r) := by
  have hpos := pos_pythonString h
  have hquoted (hpair : startsWithPair quote (u ++ r) = false) :
      quoted quote (u ++ r') = quoted quote (u ++ r) := by
    rw [pythonString_lone hpair] at h hlen
    have hstays := (closes_quoted h).stays r'
    rwa [show (quoted quote (u ++ r)).length = u.length from hlen, List.take_left] at hstays
  match u with
  | [] =>
    rw [hlen] at hpos
    exact absurd hpos (Nat.lt_irrefl 0)
  | [a] =>
    have hpair (t : List Char) : startsWithPair quote ([a] ++ t) = (a = quote && t.head? = some quote) := by
      cases t with
      | nil => simp [startsWithPair]
      | cons b t => simp [startsWithPair]
    have hlone : startsWithPair quote ([a] ++ r) = false := by
      refine Bool.eq_false_iff.mpr fun htrue => ?_
      rw [pythonString_pair htrue, Extent.length_behind] at hlen
      simp only [List.length_singleton] at hlen
      omega
    have hlone' : startsWithPair quote ([a] ++ r') = false := by
      rcases hr with hr | hr
      · rw [hpair, hr, ← hpair, hlone]
      · rw [hpair]
        refine Bool.eq_false_iff.mpr fun htrue => ?_
        simp only [Bool.and_eq_true, decide_eq_true_eq] at htrue
        exact absurd rfl (of_decide_eq_true (hr quote htrue.2))
    rw [pythonString_lone hlone, pythonString_lone hlone', hquoted hlone]
  | a :: b :: t =>
    have hsame : startsWithPair quote (a :: b :: t ++ r') = startsWithPair quote (a :: b :: t ++ r) := rfl
    cases hpair : startsWithPair quote (a :: b :: t ++ r) with
    | true =>
      rw [pythonString_pair hpair, Extent.sound_behind] at h
      rw [pythonString_pair hpair, Extent.length_behind] at hlen
      rw [pythonString_pair hpair, pythonString_pair (hsame.trans hpair)]
      have hstays := (closes_tripleQuoted h).stays r'
      have hdrop (t' : List Char) : (a :: b :: t ++ t').drop 2 = t ++ t' := rfl
      rw [hdrop] at hstays hlen ⊢
      rw [hdrop]
      have hlen : (tripleQuoted quote (t ++ r)).length = t.length := by
        simp only [List.length_cons] at hlen
        omega
      rw [hlen, List.take_left] at hstays
      rw [hstays]
    | false =>
      rw [pythonString_lone hpair, pythonString_lone (hsame.trans hpair), hquoted hpair]

theorem lineComment_le : lineComment r ≤ r.length := by
  have hdrop := (List.dropWhile_suffix (l := (r.takeWhile (· ≠ '\n')).reverse) (· = '\r')).length_le
  have htake := (List.takeWhile_prefix (l := r) (· ≠ '\n')).length_le
  rw [List.length_reverse] at hdrop
  exact Nat.le_trans hdrop htake

/-- A letter that can mark a string. -/
def isMark (c : Char) : Bool := "rRbBfFuU".toList.contains c

def isQuote (c : Char) : Bool := c = '"' || c = '\''

theorem stringMark_eq (cs : List Char) : stringMark cs =
    if (cs.takeWhile isMark).length ≤ 2 && ((cs.drop (cs.takeWhile isMark).length).head?.any isQuote)
    then (cs.takeWhile isMark).length else 0 := by
  have hmark : (fun c => "rRbBfFuU".toList.contains c) = isMark := rfl
  unfold stringMark
  dsimp only
  rw [hmark]
  cases cs.drop (cs.takeWhile isMark).length with
  | nil => simp
  | cons c t => simp [isQuote]

/-- Marks that do not reach to the end of `a` do not depend on what stands behind it. -/
theorem stringMark_append (h : ((a ++ r).takeWhile isMark).length < a.length) :
    stringMark (a ++ r') = stringMark (a ++ r) := by
  have hshort : (a.takeWhile isMark).length ≠ a.length := by
    intro hall
    rw [List.takeWhile_append, if_pos hall, List.length_append] at h
    omega
  have htake (t : List Char) : (a ++ t).takeWhile isMark = a.takeWhile isMark := by
    rw [List.takeWhile_append, if_neg hshort]
  have hle := (List.takeWhile_prefix (l := a) isMark).length_le
  have hhead (t : List Char) : ((a ++ t).drop (a.takeWhile isMark).length).head?
      = (a.drop (a.takeWhile isMark).length).head? := by
    rw [List.drop_append_of_le_length hle]
    cases hdrop : a.drop (a.takeWhile isMark).length with
    | nil =>
      have hge := List.drop_eq_nil_iff.mp hdrop
      omega
    | cons c t => rfl
  rw [stringMark_eq, stringMark_eq, htake, htake, hhead, hhead]

/-- No mark comes up where neither a mark nor a quote does. -/
theorem stringMark_eq_zero (h : stringMark (a ++ r) = 0)
    (hr : ∀ i, r.head? = some i → isMark i = false)
    (hm : Meets (fun i => !isMark i && !isQuote i) r r') : stringMark (a ++ r') = 0 := by
  by_cases hshort : ((a ++ r).takeWhile isMark).length < a.length
  · rw [stringMark_append hshort, h]
  · have hnone {t : List Char} (ht : ∀ i, t.head? = some i → isMark i = false) : t.takeWhile isMark = [] := by
      cases t with
      | nil => rfl
      | cons i t => rw [List.takeWhile_cons, ht i rfl, if_neg Bool.false_ne_true]
    have hall : a.takeWhile isMark = a := by
      refine Decidable.byContradiction fun hne => hshort ?_
      have hlen : (a.takeWhile isMark).length ≠ a.length := fun hlen =>
        hne ((List.takeWhile_prefix isMark).eq_of_length hlen)
      have hle := (List.takeWhile_prefix (l := a) isMark).length_le
      rw [List.takeWhile_append, if_neg hlen]
      omega
    have heq {t : List Char} (ht : ∀ i, t.head? = some i → isMark i = false) : stringMark (a ++ t)
        = if a.length ≤ 2 && t.head?.any isQuote then a.length else 0 := by
      rw [stringMark_eq, List.takeWhile_append, hall, if_pos rfl, hnone ht, List.append_nil,
        List.drop_left]
    have hr' : ∀ i, r'.head? = some i → isMark i = false := by
      intro i hi
      rcases hm with hm | hm
      · exact hr i (hm.symm.trans hi)
      · have hi := hm i hi
        simp only [Bool.and_eq_true, Bool.not_eq_true'] at hi
        exact hi.1
    rw [heq hr']
    rcases hm with hm | hm
    · rw [hm, ← heq hr, h]
    · refine if_neg fun hquote => ?_
      simp only [Bool.and_eq_true, Option.any_eq_true] at hquote
      obtain ⟨-, i, hi, hq⟩ := hquote
      have hi := hm i hi
      simp [hq] at hi

theorem stringMark_of_not_isMark (h : isMark c = false) : stringMark (c :: r) = 0 := by
  rw [stringMark_eq, List.takeWhile_cons, h, if_neg Bool.false_ne_true]
  exact ite_self 0

theorem length_of_stringMark (h : stringMark r ≠ 0) : stringMark r = (r.takeWhile isMark).length := by
  rw [stringMark_eq] at h ⊢
  split
  · rfl
  · next hnot => rw [if_neg hnot] at h; exact absurd rfl h

theorem isQuote_of_stringMark (h : stringMark r ≠ 0) : isQuote (r.getD (stringMark r) '"') := by
  have hlen := length_of_stringMark h
  rw [stringMark_eq] at h
  split at h
  · next hquote =>
    simp only [Bool.and_eq_true, Option.any_eq_true, List.head?_drop, ← hlen] at hquote
    obtain ⟨-, q, hq, hisQuote⟩ := hquote
    rwa [List.getD_eq_getElem?_getD, hq]
  · exact absurd rfl h

theorem startsName_of_isMark (h : isMark c) : startsName d c := by
  have hmem : c ∈ ['r', 'R', 'b', 'B', 'f', 'F', 'u', 'U'] := List.contains_iff_mem.mp h
  simp only [List.mem_cons, List.not_mem_nil, or_false] at hmem
  rcases hmem with rfl | rfl | rfl | rfl | rfl | rfl | rfl | rfl <;> cases d <;> decide

theorem isAlphanum_of_isMark (h : isMark c) : c.isAlphanum := by
  have hmem : c ∈ ['r', 'R', 'b', 'B', 'f', 'F', 'u', 'U'] := List.contains_iff_mem.mp h
  simp only [List.mem_cons, List.not_mem_nil, or_false] at hmem
  rcases hmem with rfl | rfl | rfl | rfl | rfl | rfl | rfl | rfl <;> decide

/-- A name goes on with what a name starts with, but for a hash. -/
theorem continuesName_of_ne_hash (h : startsName d c) (hc : d = .script → c ≠ '#') :
    continuesName d c := by
  simp only [startsName, continuesName, Bool.or_eq_true, Bool.and_eq_true, decide_eq_true_eq] at h ⊢
  rcases h with (h | h) | ⟨hd, h | h⟩
  · exact .inl (.inl h)
  · exact .inl (.inr (Text.isLetterOrNumber_of_isLetter h))
  · exact .inr ⟨hd, h⟩
  · exact absurd h (hc hd)

theorem continuesName_of_isMark (h : isMark c) : continuesName d c := by
  have hmem : c ∈ ['r', 'R', 'b', 'B', 'f', 'F', 'u', 'U'] := List.contains_iff_mem.mp h
  simp only [List.mem_cons, List.not_mem_nil, or_false] at hmem
  rcases hmem with rfl | rfl | rfl | rfl | rfl | rfl | rfl | rfl <;> cases d <;> decide

theorem opensLiteral_of_not_isMark (hc : isMark c = false) (h : opensLiteral d c r = false) :
    opensLiteral d c r' = false := by
  simp only [opensLiteral, stringMark_of_not_isMark hc] at h ⊢
  exact h

theorem stringMark_le : stringMark (c :: r) ≤ r.length := by
  unfold stringMark
  dsimp only
  split
  · next q t hdrop =>
    have hlen := congrArg List.length hdrop
    rw [List.length_drop, List.length_cons, List.length_cons] at hlen
    split
    · omega
    · exact Nat.zero_le _
  · exact Nat.zero_le _

variable {x : Lexeme}

theorem Told.more_le (h : Told f c r d x) (hx : x.faults = []) : x.more ≤ r.length := by
  have hpunct : punctLength d (c :: r) - 1 ≤ r.length :=
    Nat.sub_le_of_le_add (punctLength_le (c :: r) (List.cons_ne_nil _ _))
  cases h with
  | quoted h =>
    have hle := (closes_quoted (sound_of_faults hx)).le
    exact Nat.zero_add r.length ▸ Nat.add_le_add_left hle 0
  | template h =>
    have hle := (closes_template (sound_of_faults hx)).le
    exact Nat.zero_add r.length ▸ Nat.add_le_add_left hle 0
  | marked h =>
    have hle := pythonString_le (sound_of_faults hx)
    rw [List.length_drop] at hle
    have hmark := stringMark_le (c := c) (r := r)
    exact Nat.le_trans (Nat.add_le_add_left hle _) (by omega)
  | string hm h =>
    have hle := pythonString_le (sound_of_faults hx)
    exact Nat.zero_add r.length ▸ Nat.add_le_add_left hle 0
  | number hl h => exact Nat.sub_le_of_le_add numberLength_le
  | regex hc hf h => exact regexLength_le h
  | slash hc hf h => exact hpunct
  | name hl hn h => exact (List.takeWhile_prefix _).length_le
  | punct hl hn hs h => exact hpunct

/-- A piece without faults lies within the text. -/
theorem Front.more_le (h : Front f d c r x) (hx : x.faults = []) : x.more ≤ r.length := by
  cases h with
  | blank h => exact Nat.zero_le _
  | feed => exact Nat.le_add_left 1 _
  | lastReturn => exact Nat.le_refl 1
  | «return» => exact Nat.le_add_left 2 _
  | hash => exact lineComment_le
  | slashes =>
    have hle := lineComment_le (r := ‹List Char›)
    rw [List.length_cons]
    dsimp only
    omega
  | block =>
    have hle := (closes_blockComment (sound_of_faults hx)).le
    rw [List.length_cons, Nat.add_comm]
    exact Nat.add_le_add_left hle 1
  | token h _ => exact told_tokenLexeme.more_le hx

end Token

end Scratchpad
