import Mathlib
import Scratchpad.Json.Read
import Scratchpad.Json.Write

/-!
Numbers in JSON text. A numeral that makes up a whole text is read in front of any rest that does
not go on with it, and a whole number of 64 bits keeps its value.
-/
namespace Scratchpad.Json

open Decimal (Binary64)

variable {cs ds r : List Char} {c : Char} {n : Numeral} {word k : Nat} {j : Json} {x : Binary64}

/-! ### Digits -/

/-- Whole numbers that fit 64 bits, with or without a sign. -/
def Fits (n : Int) : Prop := -2 ^ 63 ≤ n ∧ n < 2 ^ 64

instance (n : Int) : Decidable (Fits n) := inferInstanceAs (Decidable (_ ∧ _))

theorem wordLimit_eq : wordLimit = 2 ^ 64 := rfl

theorem gather_fst_lt (h : word < 2 ^ 64) : (gather word ds).1 < 2 ^ 64 := by
  induction ds generalizing word with
  | nil => exact h
  | cons c ds ih =>
    unfold gather
    split
    · next hlt => exact ih (wordLimit_eq ▸ hlt)
    · exact h

theorem le_ofDigitChars : word ≤ Nat.ofDigitChars 10 ds word := by
  induction ds generalizing word with
  | nil => exact Nat.le_refl _
  | cons c ds ih =>
    rw [Nat.ofDigitChars_cons]
    have := @ih (10 * word + (c.toNat - '0'.toNat))
    omega

/-- Digits are all taken if the word holds their value. -/
theorem gather_eq (h : Nat.ofDigitChars 10 ds word < 2 ^ 64) :
    gather word ds = (Nat.ofDigitChars 10 ds word, []) := by
  induction ds generalizing word with
  | nil => rfl
  | cons c ds ih =>
    rw [Nat.ofDigitChars_cons] at h ⊢
    have hc : word * 10 + digitValue c = 10 * word + (c.toNat - '0'.toNat) := by
      rw [digitValue]
      omega
    have hlt : 10 * word + (c.toNat - '0'.toNat) < wordLimit :=
      Nat.lt_of_le_of_lt le_ofDigitChars h
    rw [gather, hc, if_pos hlt, ih h]

theorem gather_toDigits {m : Nat} (h : m < 2 ^ 64) : gather 0 (Nat.toDigits 10 m) = (m, []) := by
  have hm : Nat.ofDigitChars 10 (Nat.toDigits 10 m) 0 = m := Nat.ofDigitChars_ten_toDigits
  rw [gather_eq (hm.symm ▸ h), hm]

/-! ### Values of numerals -/

/-- Whether a JSON value is what a numeral may stand for. -/
inductive IsNumber : Json → Prop where
  | int {n : Int} (h : Fits n) : IsNumber (.int n)
  | float {x : Binary64} : IsNumber (.float x)

theorem isNumber_of_value (h : n.value = some j) : IsNumber j := by
  have hword : (gather 0 n.whole).1 < 2 ^ 64 := gather_fst_lt (by decide)
  simp only [Numeral.value] at h
  split at h
  · split at h
    · cases h
      exact .int ⟨by omega, by exact_mod_cast hword⟩
    · split at h
      · cases h
        exact .float
      · next hn =>
        cases h
        refine .int ⟨?_, by omega⟩
        have hle : (gather 0 n.whole).1 ≤ 2 ^ 63 := by
          refine Nat.le_of_not_lt fun hlt => hn ?_
          simp [show Nat.pow 2 63 < (gather 0 n.whole).1 from hlt]
        omega
  · split at h
    · split at h
      · cases h
      · cases h
        exact .float
    · rcases Option.map_eq_some_iff.mp h with ⟨f, -, rfl⟩
      exact .float

/-- The sign of an exponent is of no account if there is no exponent. -/
theorem value_exponentNegative {b : Bool} (h : n.exponent = []) :
    { n with exponentNegative := b }.value = n.value := by
  have he : ¬ exponentLimit ≤ 0 := by decide
  simp only [Numeral.value, h, List.foldl_nil, if_neg he]
  cases b <;> cases n.exponentNegative <;> simp

/-! ### Parts of numerals -/

/-- The text behind a minus. -/
def behindMinus (cs : List Char) : List Char := if cs.head? = some '-' then cs.drop 1 else cs

/-- The digits behind a point. -/
def fractionOf (cs : List Char) : List Char :=
  if cs.head? = some '.' then (cs.drop 1).takeWhile Char.isDigit else []

def behindFraction (cs : List Char) : List Char :=
  if cs.head? = some '.' then cs.drop (1 + (fractionOf cs).length) else cs

def hasExponent (cs : List Char) : Bool := cs.head? = some 'e' || cs.head? = some 'E'

/-- The text behind a sign of an exponent. -/
def behindSign (cs : List Char) : List Char :=
  if cs.head? = some '-' || cs.head? = some '+' then cs.drop 1 else cs

def exponentOf (cs : List Char) : List Char :=
  if hasExponent cs then (behindSign (cs.drop 1)).takeWhile Char.isDigit else []

def behindExponent (cs : List Char) : List Char :=
  if hasExponent cs then (behindSign (cs.drop 1)).drop (exponentOf cs).length else cs

/-- Numerals are read part by part. -/
theorem readNumeral_eq (cs : List Char) : readNumeral cs =
    let unsigned := behindMinus cs
    let whole := unsigned.takeWhile Char.isDigit
    let b := unsigned.drop whole.length
    let e := behindFraction b
    if whole.isEmpty || (whole.head? = some '0' && whole.length ≠ 1)
      || (b.head? = some '.' && (fractionOf b).isEmpty)
      || (hasExponent e && (exponentOf e).isEmpty) then none
    else some (⟨cs.head? = some '-', whole, fractionOf b, hasExponent e,
      (e.drop 1).head? = some '-', exponentOf e⟩, cs.length - (behindExponent e).length) := rfl

/-! ### Numerals in front of a rest -/

/-- The text does not go on with a numeral. -/
def Delimited (r : List Char) : Prop :=
  ∀ c ∈ r.head?, c.isDigit = false ∧ c ≠ '.' ∧ c ≠ 'e' ∧ c ≠ 'E'

theorem drop_takeWhile_append : (cs ++ r).drop (cs.takeWhile Char.isDigit).length =
    cs.drop (cs.takeWhile Char.isDigit).length ++ r :=
  List.drop_append_of_le_length (List.takeWhile_prefix _).length_le

theorem drop_one_append (h : cs.head? = some c) : (cs ++ r).drop 1 = cs.drop 1 ++ r := by
  cases cs with
  | nil => cases h
  | cons => rfl

theorem behindMinus_append (h : cs ≠ []) : behindMinus (cs ++ r) = behindMinus cs ++ r := by
  rcases List.exists_cons_of_ne_nil h with ⟨c, cs, rfl⟩
  by_cases hc : c = '-' <;> simp [behindMinus, hc]

theorem behindSign_append (h : cs ≠ []) : behindSign (cs ++ r) = behindSign cs ++ r := by
  rcases List.exists_cons_of_ne_nil h with ⟨c, cs, rfl⟩
  by_cases hc : c = '-' ∨ c = '+' <;> simp [behindSign, hc]

namespace Delimited

theorem takeWhile (h : Delimited r) :
    (cs ++ r).takeWhile Char.isDigit = cs.takeWhile Char.isDigit := by
  induction cs with
  | nil =>
    cases r with
    | nil => rfl
    | cons c r => simp [(h c rfl).1]
  | cons c cs ih => simp only [List.cons_append, List.takeWhile_cons, ih]

theorem head? (h : Delimited r) (hc : c = '.' ∨ c = 'e' ∨ c = 'E') :
    ((cs ++ r).head? = some c) = (cs.head? = some c) := by
  cases cs with
  | nil =>
    refine propext ⟨fun hr => ?_, nofun⟩
    rcases h c hr with ⟨-, h₁, h₂, h₃⟩
    rcases hc with rfl | rfl | rfl
    · exact absurd rfl h₁
    · exact absurd rfl h₂
    · exact absurd rfl h₃
  | cons => rfl

theorem fractionOf (h : Delimited r) : fractionOf (cs ++ r) = fractionOf cs := by
  simp only [Json.fractionOf, h.head? (.inl rfl)]
  split
  · next hpoint => rw [drop_one_append hpoint, h.takeWhile]
  · rfl

theorem behindFraction (h : Delimited r) :
    behindFraction (cs ++ r) = behindFraction cs ++ r := by
  simp only [Json.behindFraction, h.head? (.inl rfl), h.fractionOf]
  split
  · next hpoint =>
    rcases List.head?_eq_some_iff.mp hpoint with ⟨cs, rfl⟩
    have hle := (List.takeWhile_prefix Char.isDigit (l := cs)).length_le
    simp only [Json.fractionOf, List.head?_cons, if_true, List.drop_one, List.tail_cons]
    rw [List.drop_append_of_le_length]
    rw [List.length_cons]
    omega
  · rfl

theorem hasExponent (h : Delimited r) : hasExponent (cs ++ r) = hasExponent cs := by
  simp only [Json.hasExponent, h.head? (.inr (.inl rfl)), h.head? (.inr (.inr rfl))]

/-- What is taken for the sign of the exponent may stand in the rest if there is no exponent. -/
theorem exponent (h : Delimited r) (hd : Json.hasExponent cs = true → exponentOf cs ≠ []) :
    exponentOf (cs ++ r) = exponentOf cs ∧ behindExponent (cs ++ r) = behindExponent cs ++ r ∧
      (((cs ++ r).drop 1).head? = (cs.drop 1).head? ∨ exponentOf cs = []) := by
  unfold exponentOf behindExponent exponentOf
  rw [h.hasExponent]
  split
  · next he =>
    have hstart : ∃ c, cs.head? = some c := by
      rcases Bool.or_eq_true_iff.mp he with hc | hc
      · exact ⟨_, of_decide_eq_true hc⟩
      · exact ⟨_, of_decide_eq_true hc⟩
    have hne : cs.drop 1 ≠ [] := by
      intro hn
      exact hd he (by simp [exponentOf, he, hn, behindSign])
    rcases hstart with ⟨c, hc⟩
    rw [drop_one_append hc, behindSign_append hne, h.takeWhile, drop_takeWhile_append]
    refine ⟨rfl, rfl, .inl ?_⟩
    rcases List.exists_cons_of_ne_nil hne with ⟨c, l, hl⟩
    rw [hl]
    rfl
  · exact ⟨rfl, rfl, .inr rfl⟩

end Delimited

/-- A numeral that makes up a text is read, with its value, in front of a rest. -/
theorem readNumeral_append (hr : Delimited r) (h : readNumeral cs = some (n, cs.length)) :
    ∃ n', readNumeral (cs ++ r) = some (n', cs.length) ∧ n'.value = n.value := by
  have hcs : cs ≠ [] := by
    rintro rfl
    cases h
  have hnegative : (cs ++ r).head? = cs.head? := by
    rcases List.exists_cons_of_ne_nil hcs with ⟨c, l, rfl⟩
    rfl
  simp only [readNumeral_eq] at h
  simp only [readNumeral_eq, behindMinus_append hcs, hr.takeWhile, drop_takeWhile_append,
    hr.head? (.inl rfl), hr.fractionOf, hr.behindFraction, hr.hasExponent, hnegative]
  generalize (behindMinus cs).takeWhile Char.isDigit = whole at h ⊢
  generalize (behindMinus cs).drop whole.length = b at h ⊢
  generalize behindFraction b = e at h ⊢
  split at h
  · cases h
  · next hgood =>
    rcases Prod.mk.inj (Option.some.inj h) with ⟨rfl, hlength⟩
    have hrest : behindExponent e = [] := by
      have := List.length_pos_iff.mpr hcs
      exact List.length_eq_zero_iff.mp (by omega)
    have hd : hasExponent e = true → exponentOf e ≠ [] := by
      intro he hn
      simp [he, hn] at hgood
    rcases hr.exponent hd with ⟨hexponent, hbehind, hsign⟩
    rw [hexponent, hbehind, hrest, if_neg hgood]
    refine ⟨_, congrArg some (Prod.ext rfl (by simp)), ?_⟩
    rcases hsign with hsign | hnone
    · rw [hsign]
    · rw [hnone]
      exact @value_exponentNegative ⟨_, _, _, _, decide ((e.drop 1).head? = some '-'), []⟩ _ rfl

/-! ### Texts of numerals -/

namespace Numeral

def sign (negative : Bool) : List Char := if negative then ['-'] else []

/-- The point and the digits behind it. -/
def fractionText (n : Numeral) : List Char := if n.fraction = [] then [] else '.' :: n.fraction

def exponentText (n : Numeral) : List Char :=
  if n.hasExponent then 'e' :: (sign n.exponentNegative ++ n.exponent) else []

def text (n : Numeral) : List Char :=
  sign n.negative ++ (n.whole ++ (n.fractionText ++ n.exponentText))

/-- A numeral that can be written: its digits are digits, there is one at least in front of the
point and in an exponent, and a zero is the only one in front of the point if it is the first. -/
structure Proper (n : Numeral) : Prop where
  whole : ∀ c ∈ n.whole, c.isDigit = true
  nonempty : n.whole ≠ []
  unpadded : n.whole.head? = some '0' → n.whole.length = 1
  fraction : ∀ c ∈ n.fraction, c.isDigit = true
  exponent : ∀ c ∈ n.exponent, c.isDigit = true
  scaled : n.hasExponent = true ↔ n.exponent ≠ []
  signed : n.exponentNegative = true → n.hasExponent = true

end Numeral

theorem ne_of_isDigit {d : Char} (hd : d.isDigit = true) (hc : c.isDigit = false) : d ≠ c := by
  rintro rfl
  cases hd.symm.trans hc

theorem takeWhile_digits (hd : ∀ c ∈ ds, c.isDigit = true) (hr : ∀ c ∈ r.head?, c.isDigit = false) :
    (ds ++ r).takeWhile Char.isDigit = ds := by
  have htake : r.takeWhile Char.isDigit = [] := by
    cases r with
    | nil => rfl
    | cons c r => simp [hr c rfl]
  rw [List.takeWhile_append_of_pos hd, htake, List.append_nil]

theorem head?_sign_append {negative : Bool} (hd : ∀ c ∈ ds, c.isDigit = true) (hne : ds ≠ []) :
    (Numeral.sign negative ++ (ds ++ r)).head? = some '-' ↔ negative = true := by
  rcases List.exists_cons_of_ne_nil hne with ⟨d, ds, rfl⟩
  cases negative with
  | true => simp [Numeral.sign]
  | false =>
    have hminus : d ≠ '-' := ne_of_isDigit (hd d (List.mem_cons_self ..)) rfl
    simp [Numeral.sign, hminus]

theorem behindMinus_sign {negative : Bool} (hd : ∀ c ∈ ds, c.isDigit = true) (hne : ds ≠ []) :
    behindMinus (Numeral.sign negative ++ (ds ++ r)) = ds ++ r := by
  unfold behindMinus
  simp only [head?_sign_append hd hne]
  cases negative <;> rfl

namespace Numeral

theorem head?_exponentText : ∀ c ∈ n.exponentText.head?, c = 'e' := by
  unfold exponentText
  split
  · rintro _ ⟨⟩
    rfl
  · nofun

theorem hasExponent_exponentText : Json.hasExponent n.exponentText = n.hasExponent := by
  unfold exponentText
  cases n.hasExponent <;> rfl

theorem head?_rest : ∀ c ∈ (n.fractionText ++ n.exponentText).head?, c = '.' ∨ c = 'e' := by
  unfold fractionText
  split
  · exact fun c hc => .inr (head?_exponentText c hc)
  · rintro _ ⟨⟩
    exact .inl rfl

theorem head?_point : (n.fractionText ++ n.exponentText).head? = some '.' ↔ n.fraction ≠ [] := by
  unfold fractionText
  split
  · next hf =>
    refine ⟨fun hc => ?_, fun hne => absurd hf hne⟩
    exact absurd (head?_exponentText '.' hc) (by decide)
  · next hf => exact ⟨fun _ => hf, fun _ => rfl⟩

end Numeral

namespace Numeral.Proper

variable (h : n.Proper)
include h

theorem takeWhile_rest :
    (n.fraction ++ n.exponentText).takeWhile Char.isDigit = n.fraction :=
  takeWhile_digits h.fraction fun c hc => head?_exponentText c hc ▸ rfl

theorem fractionOf_rest : fractionOf (n.fractionText ++ n.exponentText) = n.fraction := by
  unfold fractionOf
  simp only [head?_point]
  split
  · next hf =>
    rw [fractionText, if_neg hf]
    exact h.takeWhile_rest
  · next hf => exact (not_not.mp hf).symm

theorem behindFraction_rest :
    behindFraction (n.fractionText ++ n.exponentText) = n.exponentText := by
  unfold behindFraction
  rw [h.fractionOf_rest]
  simp only [head?_point]
  split
  · next hf =>
    rw [fractionText, if_neg hf, Nat.add_comm]
    exact List.drop_left
  · next hf => rw [fractionText, if_pos (not_not.mp hf), List.nil_append]

theorem behindSign_exponentText (he : n.hasExponent = true) :
    behindSign (n.exponentText.drop 1) = n.exponent := by
  rw [exponentText, if_pos he]
  rcases List.exists_cons_of_ne_nil (h.scaled.mp he) with ⟨d, ds, hds⟩
  have hdigit : d.isDigit = true := h.exponent d (hds ▸ List.mem_cons_self ..)
  have hminus : d ≠ '-' := ne_of_isDigit hdigit rfl
  have hplus : d ≠ '+' := ne_of_isDigit hdigit rfl
  cases n.exponentNegative <;> simp [sign, behindSign, hds, hminus, hplus]

theorem exponentOf_exponentText : exponentOf n.exponentText = n.exponent := by
  unfold exponentOf
  rw [hasExponent_exponentText]
  split
  · next he =>
    rw [h.behindSign_exponentText he]
    exact List.takeWhile_eq_self_iff.mpr h.exponent
  · next he => exact (not_not.mp fun hne => he (h.scaled.mpr hne)).symm

theorem behindExponent_exponentText : behindExponent n.exponentText = [] := by
  unfold behindExponent
  rw [hasExponent_exponentText, h.exponentOf_exponentText]
  split
  · next he =>
    rw [h.behindSign_exponentText he]
    exact List.drop_length
  · next he => exact if_neg he

theorem head?_exponentNegative :
    (n.exponentText.drop 1).head? = some '-' ↔ n.exponentNegative = true := by
  unfold exponentText
  split
  · next he =>
    have hs := @head?_sign_append n.exponent [] n.exponentNegative h.exponent (h.scaled.mp he)
    rwa [List.append_nil] at hs
  · next he => exact ⟨nofun, fun hn => absurd (h.signed hn) he⟩

/-- A proper numeral is read from its text. -/
theorem readNumeral_text : readNumeral n.text = some (n, n.text.length) := by
  have hdigits : ∀ c ∈ (n.fractionText ++ n.exponentText).head?, c.isDigit = false := by
    intro c hc
    rcases head?_rest c hc with rfl | rfl <;> rfl
  have hwhole := takeWhile_digits h.whole hdigits
  have hdrop : (n.whole ++ (n.fractionText ++ n.exponentText)).drop n.whole.length =
      n.fractionText ++ n.exponentText := List.drop_left
  have hnegative := @head?_sign_append _ (n.fractionText ++ n.exponentText) n.negative h.whole
    h.nonempty
  rw [text, readNumeral_eq]
  simp only [behindMinus_sign h.whole h.nonempty, hwhole, hdrop, h.fractionOf_rest,
    h.behindFraction_rest, hasExponent_exponentText, h.exponentOf_exponentText,
    h.behindExponent_exponentText, h.head?_exponentNegative, head?_point, hnegative]
  rw [if_neg]
  · simp
  · have hzero : ¬ (n.whole.head? = some '0' ∧ n.whole.length ≠ 1) :=
      fun hz => hz.2 (h.unpadded hz.1)
    simpa [h.nonempty, h.scaled] using hzero

end Numeral.Proper

/-- The text is one numeral. -/
def IsNumeral (text : String) : Prop :=
  ∃ n, readNumeral text.toList = some (n, text.toList.length)

/-! ### Whole numbers -/

theorem isDigit_of_mem_toDigits {m : Nat} (h : c ∈ Nat.toDigits 10 m) : c.isDigit = true :=
  Nat.isDigit_of_mem_toDigits (by decide) (by decide) h

theorem head?_toDigits {m : Nat} (h : 0 < m) : (Nat.toDigits 10 m).head? ≠ some '0' := by
  induction m using Nat.strongRecOn with
  | ind m ih =>
    by_cases hm : m < 10
    · rw [Nat.toDigits_of_lt_base hm]
      simpa using Nat.ne_of_gt h
    · rw [Nat.toDigits_of_base_le (by decide) (by omega)]
      rw [List.head?_append, Option.or_of_isSome (by simp)]
      exact ih (m / 10) (by omega) (by omega)

theorem length_toDigits_of_head? {m : Nat} (h : (Nat.toDigits 10 m).head? = some '0') :
    (Nat.toDigits 10 m).length = 1 := by
  have hm : m = 0 := Nat.eq_zero_of_not_pos fun hm => head?_toDigits hm h
  rw [hm]
  rfl

/-- The numeral of a whole number. -/
def wholeNumeral (negative : Bool) (m : Nat) : Numeral :=
  ⟨negative, Nat.toDigits 10 m, [], false, false, []⟩

theorem proper_wholeNumeral (negative : Bool) (m : Nat) : (wholeNumeral negative m).Proper where
  whole _ := isDigit_of_mem_toDigits
  nonempty := Nat.toDigits_ne_nil
  unpadded := length_toDigits_of_head?
  fraction := nofun
  exponent := nofun
  scaled := ⟨nofun, fun h => absurd rfl h⟩
  signed := nofun

theorem toList_int (n : Int) :
    (toString n).toList = Numeral.sign (n < 0) ++ Nat.toDigits 10 n.natAbs := by
  cases n with
  | ofNat m => exact String.toList_ofList
  | negSucc m =>
    have ht : toString (Int.negSucc m) = "-" ++ String.ofList (Nat.toDigits 10 (m + 1)) := rfl
    rw [ht, String.toList_append]
    simp [Numeral.sign]

/-- A whole number is read from its digits. -/
theorem readNumeral_int (n : Int) : readNumeral (toString n).toList =
    some (wholeNumeral (n < 0) n.natAbs, (toString n).toList.length) := by
  have ht : (toString n).toList = (wholeNumeral (n < 0) n.natAbs).text := by
    rw [toList_int]
    simp [Numeral.text, wholeNumeral, Numeral.fractionText, Numeral.exponentText]
  rw [ht]
  exact (proper_wholeNumeral _ _).readNumeral_text

theorem value_int {n : Int} (h : Fits n) :
    (wholeNumeral (n < 0) n.natAbs).value = some (.int n) := by
  rcases h with ⟨hlow, hhigh⟩
  have hg : gather 0 (Nat.toDigits 10 n.natAbs) = (n.natAbs, []) := gather_toDigits (by omega)
  by_cases hn : n < 0
  · have hlt : ¬ Nat.pow 2 63 < n.natAbs := by
      have : n.natAbs ≤ 2 ^ 63 := by omega
      exact Nat.not_lt.mpr this
    have habs : -(n.natAbs : Int) = n := by omega
    have hpos : n.natAbs ≠ 0 := by omega
    generalize n.natAbs = m at hg hlt habs hpos ⊢
    simp [Numeral.value, wholeNumeral, hn, hg, hpos, hlt, habs]
  · have habs : (n.natAbs : Int) = n := by omega
    generalize n.natAbs = m at hg habs ⊢
    simp [Numeral.value, wholeNumeral, hn, hg, habs]

end Scratchpad.Json
