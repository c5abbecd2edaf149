import Scratchpad.Proofs.Token.Bracket
import Scratchpad.Proofs.Token.Kind
import Scratchpad.Proofs.Token.Place

/-!
Even stretches of a text without bracket faults: those in which every bracket has its partner. A
stretch is read group by group, and the bracket that starts a group is paired with the one that ends
it.
-/
namespace Scratchpad

open Token (settleAll)

namespace Outline

variable {o : Outline} {i j k c : Nat}

/-- An outline with its brackets paired, in which all of them settle. -/
structure Settled (o : Outline) : Prop where
  partners : o.partners = Token.partners o.tokens
  punct : ∀ t ∈ o.tokens.toList, Token.isOpener t.text ∨ Token.isCloser t.text → t.kind = .punct
  settles : settleAll [] o.tokens.toList = some []

theorem settled_tokenize {d : Dialect} {source : List Char}
    (h : (tokenize d source).bracketFault = none) : (tokenize d source).outline.Settled :=
  ⟨rfl, fun t ht => (cut_tokenize d source t ht).punct, Token.bracketFault_eq_none.mp h⟩

/-- The tokens from `i` up to `j`, `j` not included. -/
def between (o : Outline) (i j : Nat) : List Token := (o.tokens.toList.drop i).take (j - i)

@[simp] theorem between_self : o.between i i = [] := by simp [between]

theorem between_append (hij : i ≤ j) (hjk : j ≤ k) : o.between i j ++ o.between j k = o.between i k := by
  have hk : k - i = (j - i) + (k - j) := by omega
  have hj : j = i + (j - i) := by omega
  rw [between, between, between, hk, List.take_add, List.drop_drop, ← hj]

theorem between_succ (h : i < o.size) : o.between i (i + 1) = [o.tokens[i]] := by
  rw [between, Nat.add_sub_cancel_left, List.take_one, List.head?_drop, Array.getElem?_toList,
    Array.getElem?_eq_getElem h]
  rfl

theorem between_all : o.between 0 o.size = o.tokens.toList := by
  rw [between, List.drop_zero, Nat.sub_zero, size, ← Array.length_toList, List.take_length]

theorem take_between (h : k ≤ j) : (o.between i j).take (k - i) = o.between i k := by
  rw [between, between, List.take_take]
  congr 1
  omega

theorem getElem?_between (h : i + k < j) : (o.between i j)[k]? = o.tokens[i + k]? := by
  rw [between, List.getElem?_take_of_lt (by omega), List.getElem?_drop, Array.getElem?_toList]

theorem length_between (h : j ≤ o.size) : (o.between i j).length = j - i := by
  rw [between, List.length_take, List.length_drop, Array.length_toList, ← size]
  omega

/-- Every bracket from `i` up to `j` has its partner there. -/
structure Even (o : Outline) (i j : Nat) : Prop where
  le : i ≤ j
  within : j ≤ o.size
  settles : settleAll [] (o.between i j) = some []

theorem Even.nil (h : i ≤ o.size) : o.Even i i := ⟨Nat.le_refl i, h, by simp⟩

theorem Even.settleAll (h : o.Even i j) (stack : List String) :
    settleAll stack (o.between i j) = some stack := Token.settleAll_frame h.settles stack

theorem Even.append (h : o.Even i j) (h' : o.Even j k) : o.Even i k := by
  refine ⟨Nat.le_trans h.le h'.le, h'.within, ?_⟩
  rw [← between_append h.le h'.le, Token.settleAll_append, h.settles, Option.bind_some, h'.settles]

/-- What is left of an even stretch behind an even front of it. -/
theorem Even.behind (h : o.Even i k) (h' : o.Even i j) (hjk : j ≤ k) : o.Even j k := by
  refine ⟨hjk, h.within, ?_⟩
  have hall := h.settles
  rwa [← between_append h'.le hjk, Token.settleAll_append, h'.settles, Option.bind_some] at hall

/-- A token that is no bracket. -/
theorem Even.token (h : i < o.size) (hp : o.tokens[i].IsPlain) : o.Even i (i + 1) :=
  ⟨Nat.le_succ i, h, by rw [between_succ h, Token.settleAll_cons, Token.settle_plain hp]; rfl⟩

theorem text_eq (h : i < o.size) : o.text i = o.tokens[i].text := by
  rw [text, Array.getElem?_eq_getElem h]
  rfl

theorem isPlain (hi : i < o.size) (ho : o.isOpener i = false)
    (hc : Token.isCloser (o.text i) = false) : o.tokens[i].IsPlain := by
  intro _
  rw [← text_eq hi]
  exact ⟨ho, hc⟩

theorem Settled.punct_getElem (h : o.Settled) (hi : i < o.size)
    (hb : o.isOpener i ∨ Token.isCloser (o.text i)) : o.tokens[i].kind = .punct := by
  rw [isOpener, text_eq hi] at hb
  exact h.punct _ (Array.getElem_mem_toList hi) hb

/-- A pair of brackets with an even stretch in between. -/
theorem Settled.group (h : o.Settled) (hin : o.Even (i + 1) c) (hc : c < o.size)
    (hm : Token.closer? (o.text i) = some (o.text c)) : o.Even i (c + 1) := by
  have hi : i < o.size := Nat.lt_trans hin.le hc
  have hki := h.punct_getElem hi (.inl (Token.isOpener_of_closer? hm))
  have hkc := h.punct_getElem hc (.inr (Token.isCloser_of_closer? hm))
  rw [text_eq hi, text_eq hc] at hm
  refine ⟨by have := hin.le; omega, hc, ?_⟩
  rw [← between_append (Nat.le_succ i) (by have := hin.le; omega),
    ← between_append hin.le (Nat.le_succ c), between_succ hi, between_succ hc,
    List.singleton_append, Token.settleAll_cons,
    Token.settle_opener hki (Token.isOpener_of_closer? hm), Option.bind_some,
    Token.settleAll_append, hin.settleAll, Option.bind_some, Token.settleAll_cons,
    Token.settle_closer hkc hm]
  rfl

/-- The brackets of a pair around an even stretch are partners. -/
theorem Settled.partner (h : o.Settled) (hin : o.Even (i + 1) c) (hc : c < o.size)
    (hm : Token.closer? (o.text i) = some (o.text c)) :
    o.partner? i = some c ∧ o.partner? c = some i := by
  have hi : i < o.size := Nat.lt_trans hin.le hc
  have hki := h.punct_getElem hi (.inl (Token.isOpener_of_closer? hm))
  have hkc := h.punct_getElem hc (.inr (Token.isCloser_of_closer? hm))
  rw [text_eq hi, text_eq hc] at hm
  have hlist : o.tokens.toList = o.between 0 i
      ++ o.tokens[i] :: (o.between (i + 1) c ++ o.tokens[c] :: o.between (c + 1) o.size) := by
    rw [← between_all, ← between_append (Nat.zero_le i) (Nat.le_of_lt hi),
      ← between_append (Nat.le_succ i) hi, ← between_append hin.le (Nat.le_of_lt hc),
      ← between_append (Nat.le_succ c) hc, between_succ hi, between_succ hc]
    rfl
  have hpair := Token.partners_group hlist hki hkc hm hin.settles
  rw [length_between (Nat.le_of_lt hi), length_between (Nat.le_of_lt hc), ← h.partners] at hpair
  have hlen : i - 0 + 1 + (c - (i + 1)) = c := by have := hin.le; omega
  rw [hlen, Nat.sub_zero] at hpair
  exact ⟨by rw [partner?, hpair.1]; rfl, by rw [partner?, hpair.2]; rfl⟩

theorem Settled.closing? (h : o.Settled) (hin : o.Even (i + 1) c) (hc : c < o.size)
    (hm : Token.closer? (o.text i) = some (o.text c)) : o.closing? i = some ⟨c, hin.le⟩ := by
  simp only [Outline.closing?, (h.partner hin hc hm).1]
  exact dif_pos hin.le

/-- A bracket behind which no more brackets are open than in front of it has the one that closes
it. -/
theorem Settled.exists_closing_of (h : o.Settled) {base fin : List String} (hi : i < j)
    (hj : j ≤ o.size)
    (hall : Token.settleAll (o.text i :: base) (o.between (i + 1) j) = some fin)
    (hlen : fin.length ≤ base.length) : ∃ c, ∃ hic : i < c, c < j ∧
      o.closing? i = some ⟨c, hic⟩ ∧ o.Even (i + 1) c ∧ Token.closer? (o.text i) = some (o.text c) := by
  obtain ⟨inner, t, rest, hsplit, hin, -, hm, -⟩ :=
    @Token.settleAll_split [] fin base _ (o.text i) hall hlen
  have hinside : inner.length < j - (i + 1) := by
    rw [← length_between hj, hsplit, List.length_append, List.length_cons]
    omega
  have hinner : o.between (i + 1) (i + 1 + inner.length) = inner := by
    rw [← take_between (show i + 1 + inner.length ≤ j by omega), hsplit, Nat.add_sub_cancel_left,
      List.take_left]
  have hc : i + 1 + inner.length < o.size := by omega
  have ht : o.text (i + 1 + inner.length) = t.text := by
    have hget := getElem?_between (o := o) (show i + 1 + inner.length < j by omega)
    rw [hsplit, List.getElem?_append_right (Nat.le_refl _), Nat.sub_self] at hget
    rw [text, ← hget]
    rfl
  have heven : o.Even (i + 1) (i + 1 + inner.length) :=
    ⟨Nat.le_add_right _ _, Nat.le_of_lt hc, by rw [hinner, hin]⟩
  rw [← ht] at hm
  exact ⟨_, heven.le, by omega, h.closing? heven hc hm, heven, hm⟩

/-- Every opening bracket is closed. -/
theorem Settled.closing_of_opener (h : o.Settled) (hi : i < o.size) (ho : o.isOpener i) :
    ∃ c, ∃ hic : i < c, c < o.size ∧ o.closing? i = some ⟨c, hic⟩ ∧ o.Even (i + 1) c ∧
      Token.closer? (o.text i) = some (o.text c) := by
  have hkind := h.punct_getElem hi (.inl ho)
  have hall := h.settles
  rw [← between_all, ← between_append (Nat.zero_le i) (Nat.le_of_lt hi),
    ← between_append (Nat.le_succ i) hi, between_succ hi, List.singleton_append,
    Token.settleAll_append] at hall
  obtain ⟨base, -, hrest⟩ := Option.bind_eq_some_iff.mp hall
  rw [isOpener, text_eq hi] at ho
  rw [Token.settleAll_cons, Token.settle_opener hkind ho, Option.bind_some, ← text_eq hi] at hrest
  exact h.exists_closing_of hi (Nat.le_refl _) hrest (Nat.zero_le _)

/-- The bracket that closes another one fits it. -/
theorem Settled.closer?_of_closing? (h : o.Settled) (ho : o.isOpener i) {hic : i < c}
    (hc : o.closing? i = some ⟨c, hic⟩) : Token.closer? (o.text i) = some (o.text c) := by
  have hi : i < o.size := by
    refine Nat.lt_of_not_le fun hle => ?_
    rw [isOpener, text, Array.getElem?_eq_none (show o.tokens.size ≤ i from hle)] at ho
    cases ho
  obtain ⟨c', hic', -, hclosing, -, hm⟩ := h.closing_of_opener hi ho
  obtain rfl : c' = c := congrArg Subtype.val (Option.some.inj (hclosing.symm.trans hc))
  exact hm

/-- A closing bracket starts no even stretch. -/
theorem Settled.not_isCloser (h : o.Settled) (he : o.Even i j) (hi : i < j) :
    Token.isCloser (o.text i) = false := by
  have hsize : i < o.size := Nat.lt_of_lt_of_le hi he.within
  refine Bool.eq_false_iff.mpr fun hc => ?_
  have hkind := h.punct_getElem hsize (.inr hc)
  rw [text_eq hsize] at hc
  have hall := he.settles
  rw [← between_append (Nat.le_succ i) hi, between_succ hsize, List.singleton_append,
    Token.settleAll_cons] at hall
  obtain ⟨mid, hmid, -⟩ := Option.bind_eq_some_iff.mp hall
  rcases Token.settle_cases hmid with ⟨hp, -⟩ | ⟨-, ho, -⟩ | ⟨-, s, -, hs⟩
  · rw [(hp hkind).2] at hc
    cases hc
  · rw [Token.not_isOpener_of_isCloser hc] at ho
    cases ho
  · cases hs

/-- The bracket that closes the first token of an even stretch stands in it. -/
theorem Settled.closing_of_even (h : o.Settled) (he : o.Even i j) (hij : i < j) (ho : o.isOpener i) :
    ∃ c, ∃ hic : i < c, c < j ∧ o.closing? i = some ⟨c, hic⟩ ∧ o.Even i (c + 1) := by
  have hi := Nat.lt_of_lt_of_le hij he.within
  have hall := he.settles
  have hkind := h.punct_getElem hi (.inl ho)
  rw [isOpener, text_eq hi] at ho
  rw [← between_append (Nat.le_succ i) hij, between_succ hi, List.singleton_append,
    Token.settleAll_cons, Token.settle_opener hkind ho, Option.bind_some, ← text_eq hi] at hall
  obtain ⟨c, hic, hcj, hclosing, heven, hm⟩ :=
    h.exists_closing_of hij he.within hall (Nat.le_refl _)
  exact ⟨c, hic, hcj, hclosing, h.group heven (Nat.lt_of_lt_of_le hcj he.within) hm⟩

/-- A token or bracket group that starts an even stretch ends within it. -/
theorem Settled.past_of_even (h : o.Settled) (he : o.Even i j) (hij : i < j) :
    (o.pastOrAll i).val ≤ j ∧ o.Even i (o.pastOrAll i).val := by
  have hi : i < o.size := Nat.lt_of_lt_of_le hij he.within
  cases ho : o.isOpener i with
  | true =>
    obtain ⟨c, hic, hcj, hclosing, heven⟩ := h.closing_of_even he hij ho
    have hpast : (o.pastOrAll i).val = c + 1 := by simp [pastOrAll, past, ho, hclosing]
    rw [hpast]
    exact ⟨hcj, heven⟩
  | false =>
    have hpast : (o.pastOrAll i).val = i + 1 := by simp [pastOrAll, past, ho]
    rw [hpast]
    exact ⟨hij, .token hi (isPlain hi ho (h.not_isCloser he hij))⟩

/-- A plain token at the end of an even stretch leaves it even. -/
theorem Even.front (he : o.Even i (j + 1)) (hij : i ≤ j)
    (hp : ∀ h : j < o.size, o.tokens[j].IsPlain) : o.Even i j := by
  have hall := he.settles
  rw [← between_append hij (Nat.le_succ j), between_succ he.within, Token.settleAll_append] at hall
  obtain ⟨stack, hstack, hlast⟩ := Option.bind_eq_some_iff.mp hall
  rw [Token.settleAll_cons, Token.settle_plain (hp he.within)] at hlast
  obtain rfl := Option.some.inj hlast
  exact ⟨hij, Nat.le_of_succ_le he.within, hstack⟩

theorem isPlain_of_semicolon (hs : o.is i ";") (hi : i < o.size) : o.tokens[i].IsPlain := by
  have htext := beq_iff_eq.mp hs
  exact isPlain hi (by rw [isOpener, htext]; rfl) (by rw [htext]; rfl)

theorem Settled.all (h : o.Settled) : o.Even 0 o.size :=
  ⟨Nat.zero_le _, Nat.le_refl _, by rw [between_all, h.settles]⟩

end Outline

end Scratchpad
