import Scratchpad.Proofs.Json.Number

/-!
Texts of doubles. The shortest digits of a double do not begin with a zero, unless they are a single
zero, so that its text is a numeral however the point and the exponent are placed.
-/
namespace Scratchpad.Json

open Decimal (Binary64)
open Decimal.Binary64 (stripZeros readingBack shortest digits zeros)

variable {x : Binary64} {m fuel : Nat} {e point : Int} {ds : List Char} {negative : Bool}

/-! ### Digits -/

theorem stripZeros_pos {p : Nat × Int} (h : 0 < p.1) : 0 < (stripZeros fuel p).1 := by
  induction fuel generalizing p with
  | zero => exact h
  | succ fuel ih =>
    rcases p with ⟨m, e⟩
    unfold stripZeros
    split
    · next hz =>
      have hten : m % 10 = 0 := of_decide_eq_true (Bool.and_eq_true_iff.mp hz).2
      have hpos : 0 < m := h
      exact ih (show 0 < m / 10 by omega)
    · exact h

/-- Only zero is read from the digit zero. -/
theorem pos_of_mem_readingBack (hx : x.magnitude ≠ 0) (h : m ∈ readingBack x e) : 0 < m := by
  have hm : (Binary64.ofDecimal m e).bits = x.magnitude := by
    simpa using (List.mem_filter.mp h).2
  refine Nat.pos_of_ne_zero ?_
  rintro rfl
  exact hx hm.symm

theorem shortest_pos (hx : x.magnitude ≠ 0) : shortest x = (0, 0) ∨ 0 < (shortest x).1 := by
  have hs : shortest x = if x.toRatio.1 = 0 then (0, 0) else
      let first := Binary64.firstPower x.toRatio.1 x.toRatio.2
      let exact := (List.range 17).findSome? fun (k : Nat) =>
        (readingBack x (first - (k : Int))).head?.map fun m => (m, first - (k : Int))
      exact.getD (0, 0) := rfl
  rw [hs]
  split
  · exact .inl rfl
  · dsimp only
    generalize hfound : List.findSome? _ (List.range 17) = found
    cases found with
    | none => exact .inl rfl
    | some p =>
      rcases List.exists_of_findSome?_eq_some hfound with ⟨k, -, hk⟩
      rcases Option.map_eq_some_iff.mp hk with ⟨m, hm, rfl⟩
      exact .inr (pos_of_mem_readingBack hx (List.mem_of_head? hm))

theorem digits_eq (hx : x.magnitude ≠ 0) :
    digits x = (['0'], 1) ∨ ∃ m, 0 < m ∧ (digits x).1 = Nat.toDigits 10 m := by
  rcases shortest_pos hx with h | h
  · left
    rw [digits, h]
    rfl
  · exact .inr ⟨(stripZeros 20 (shortest x)).1, stripZeros_pos h, rfl⟩

/-- Digits of a number in front of a point at this place. They begin with a zero only if they are
the zero in front of the point. -/
structure Leading (ds : List Char) (point : Int) : Prop where
  isDigit : ∀ c ∈ ds, c.isDigit = true
  nonempty : ds ≠ []
  zero : ds.head? = some '0' → ds = ['0'] ∧ point = 1

theorem isDigit_zero : ∀ c ∈ ['0'], c.isDigit = true := List.forall_mem_singleton.mpr rfl

theorem isDigit_of_mem_zeros {c : Char} {k : Nat} (h : c ∈ zeros k) : c.isDigit = true := by
  rw [List.eq_of_mem_replicate h]
  rfl

theorem leading_digits (hx : x.magnitude ≠ 0) : Leading (digits x).1 (digits x).2 := by
  rcases digits_eq hx with h | ⟨m, hm, h⟩
  · rw [h]
    exact ⟨isDigit_zero, nofun, fun _ => ⟨rfl, rfl⟩⟩
  · rw [h]
    exact ⟨fun _ => isDigit_of_mem_toDigits, Nat.toDigits_ne_nil,
      fun hz => absurd hz (head?_toDigits hm)⟩

/-! ### Texts -/

/-- Digits on both sides of a point are a numeral. -/
theorem exists_numeral {whole fraction : List Char} (hw : ∀ c ∈ whole, c.isDigit = true)
    (hwhole : whole ≠ []) (hz : whole.head? = some '0' → whole.length = 1)
    (hf : ∀ c ∈ fraction, c.isDigit = true) (hfraction : fraction ≠ []) :
    ∃ n : Numeral, n.Proper ∧ Numeral.sign negative ++ (whole ++ '.' :: fraction) = n.text := by
  refine ⟨⟨negative, whole, fraction, false, false, []⟩, ?_, ?_⟩
  · exact ⟨hw, hwhole, hz, hf, nofun, ⟨nofun, fun h => absurd rfl h⟩, nofun⟩
  · simp [Numeral.text, Numeral.fractionText, Numeral.exponentText, hfraction]

namespace Leading

variable (h : Leading ds point)
include h

theorem positional : ∃ n : Numeral, n.Proper ∧
    Numeral.sign negative ++ Binary64.positional ds point = n.text := by
  unfold Binary64.positional
  split
  · refine exists_numeral (fun c hc => ?_) ?_ (fun hz => ?_) isDigit_zero nofun
    · exact (List.mem_append.mp hc).elim (h.isDigit c) isDigit_of_mem_zeros
    · exact List.append_ne_nil_of_left_ne_nil h.nonempty _
    · rw [List.head?_append, Option.or_of_isSome (by simpa using h.nonempty)] at hz
      rcases h.zero hz with ⟨rfl, rfl⟩
      rfl
  · next hlong =>
    split
    · next hpos =>
      have hne : ds.take point.toNat ≠ [] := by
        simp only [ne_eq, List.take_eq_nil_iff, not_or]
        exact ⟨by omega, h.nonempty⟩
      refine exists_numeral (fun c hc => h.isDigit c (List.mem_of_mem_take hc)) hne (fun hz => ?_)
        (fun c hc => h.isDigit c (List.mem_of_mem_drop hc)) ?_
      · rw [List.head?_take, if_neg (by omega)] at hz
        rcases h.zero hz with ⟨rfl, rfl⟩
        rfl
      · rw [ne_eq, List.drop_eq_nil_iff]
        omega
    · refine @exists_numeral _ ['0'] _ isDigit_zero nofun (fun _ => rfl) (fun c hc => ?_) ?_
      · exact (List.mem_append.mp hc).elim isDigit_of_mem_zeros (h.isDigit c)
      · exact List.append_ne_nil_of_right_ne_nil _ h.nonempty

theorem scientific : ∃ n : Numeral, n.Proper ∧
    Numeral.sign negative ++ Binary64.scientific ds point = n.text := by
  have hlength := List.length_pos_iff.mpr h.nonempty
  have htake : (ds.take 1).length = 1 := by
    rw [List.length_take]
    omega
  have hshort : ds.drop 1 = [] ↔ ds.length ≤ 1 := List.drop_eq_nil_iff
  refine ⟨⟨negative, ds.take 1, ds.drop 1, true, point - 1 < 0,
    Nat.toDigits 10 (point - 1).natAbs⟩, ?_, ?_⟩
  · refine ⟨fun c hc => h.isDigit c (List.mem_of_mem_take hc), ?_, fun _ => htake,
      fun c hc => h.isDigit c (List.mem_of_mem_drop hc), fun c => isDigit_of_mem_toDigits, ?_, ?_⟩
    · exact List.ne_nil_of_length_pos (Nat.lt_of_lt_of_eq Nat.one_pos htake.symm)
    · simp
    · exact fun _ => rfl
  · simp only [Numeral.text, Numeral.fractionText, Numeral.exponentText, Binary64.scientific,
      toList_int, hshort, if_true, List.append_assoc]

end Leading

/-- The text of a double is one numeral. -/
theorem isNumeral_toJsonText (x : Binary64) : IsNumeral x.toJsonText := by
  have hsigned (cs : List Char) :
      (Binary64.signed x cs).toList = Numeral.sign x.isNegative ++ cs := by
    cases h : x.isNegative <;> simp [Binary64.signed, Numeral.sign, h]
  have hn : ∃ n : Numeral, n.Proper ∧ x.toJsonText.toList = n.text := by
    unfold Binary64.toJsonText
    dsimp only
    rw [hsigned]
    split
    · exact exists_numeral isDigit_zero (List.cons_ne_nil _ _) (fun _ => rfl) isDigit_zero
        (List.cons_ne_nil _ _)
    · next hx =>
      have hd := leading_digits hx
      split
      · exact hd.positional
      · exact hd.scientific
  rcases hn with ⟨n, hn, ht⟩
  exact ⟨n, ht ▸ hn.readNumeral_text⟩

end Scratchpad.Json
