import Scratchpad.Proofs.Token.Exact
import Scratchpad.Proofs.Token.Group
import Scratchpad.Proofs.Token.Weave

/-!
The shards that the tokens of a Python program are, and what stands directly beside one of them: the
token in front of it or behind it, or nothing that is a token.
-/
namespace Scratchpad

open Token (startsName continuesName inNumber)

namespace Shard

variable {o : Outline} {ss front back f f' b b' : List Shard} {s x y : Shard} {j k n : Nat} {i : Char}
  {r : List Char}

/-- Token `k` of an outline is the shard `x`. -/
structure Seat (ss : List Shard) (o : Outline) (k : Nat) (front : List Shard) (x : Shard)
    (back : List Shard) : Prop where
  eq : ss = front ++ x :: back
  start : (textOf front).length = o.start k
  stop : (textOf (front ++ [x])).length = o.stop k
  lt : k < o.size
  tokens : tokensOf front = (o.between 0 k).map Token.bare
  token : x.tokens = [o.tokens[k].bare]

namespace Seat

theorem split_start (h : Seat ss o k front x back) : Split ss (o.start k) front (x :: back) :=
  ⟨h.eq, h.start⟩

theorem split_stop (h : Seat ss o k front x back) : Split ss (o.stop k) (front ++ [x]) back :=
  ⟨by rw [h.eq, List.append_assoc, List.singleton_append], h.stop⟩

theorem isToken (h : Seat ss o k front x back) : x.isToken := by
  rw [Shard.isToken, h.token]
  rfl

theorem touches (h : Seat ss o k front x back) : Touches front (x :: back) := .inr ⟨x, rfl, h.isToken⟩

theorem touches_behind (h : Seat ss o k front x back) : Touches (front ++ [x]) back :=
  .inl ⟨x, List.getLast?_concat, h.isToken⟩

theorem tokens_through (h : Seat ss o k front x back) :
    tokensOf (front ++ [x]) = (o.between 0 (k + 1)).map Token.bare := by
  rw [tokensOf_append, tokensOf_cons, tokensOf_nil, h.tokens, h.token,
    ← Outline.between_append (Nat.zero_le k) (Nat.le_succ k), Outline.between_succ h.lt, List.map_append]
  rfl

theorem text (h : Seat ss o k front x back) : x.text = (o.text k).toList := by
  have htoken := h.token
  rw [Outline.text_eq h.lt]
  cases hp : x.piece with
  | token kind =>
    simp only [Shard.tokens, hp, List.cons.injEq, and_true] at htoken
    have htext := congrArg (fun t : Token => t.text.toList) htoken
    rwa [String.toList_ofList] at htext
  | blank | joint | comment => simp [Shard.tokens, hp] at htoken

theorem stands (hs : Sound ss) (h : Seat ss o k front x back) : Stands .python true x (textOf back) := by
  have hsound : Sound (front ++ x :: back) := h.eq ▸ hs
  exact hsound.stands

theorem settle (h : Seat ss o k front x back) (stack : List String) :
    Token.settleAll stack (tokensOf front) = Token.settleAll stack (o.between 0 k) := by
  rw [h.tokens, settleAll_bare]

theorem settle_through (h : Seat ss o k front x back) (stack : List String) :
    Token.settleAll stack (tokensOf (front ++ [x])) = Token.settleAll stack (o.between 0 (k + 1)) := by
  rw [h.tokens_through, settleAll_bare]

/-- The tokens of what stands from the start of one token to the end of another one. -/
theorem tokens_segment {front' back' xs : List Shard} {x' : Shard} (h : Seat ss o j front x back)
    (h' : Seat ss o k front' x' back') (heq : front' ++ [x'] = front ++ xs) (hle : j ≤ k) :
    tokensOf xs = (o.between j (k + 1)).map Token.bare := by
  have htokens := h'.tokens_through
  rw [heq, tokensOf_append, h.tokens,
    ← Outline.between_append (Nat.zero_le j) (Nat.le_succ_of_le hle), List.map_append] at htokens
  exact List.append_cancel_left htokens

end Seat

/-- Every token of the outline has its seat. -/
structure Seated (ss : List Shard) (o : Outline) : Prop where
  sound : Sound ss
  placed : o.Placed
  tokens : tokensOf ss = o.tokens.toList.map Token.bare
  seat : ∀ k < o.size, ∃ front x back, Seat ss o k front x back

/-- A shard directly in front of a token is the token in front of it, or none. -/
theorem Seated.behind (h : Seated ss o) (hk : Seat ss o k front x back) (hs : front.getLast? = some s)
    (ht : s.isToken) : ∃ j, k = j + 1 ∧ o.stop j = o.start k ∧ ∃ f b, Seat ss o j f s b := by
  obtain ⟨front, rfl⟩ := List.getLast?_eq_some_iff.mp hs
  have htokens := hk.tokens
  cases k with
  | zero =>
    rw [tokensOf_append, tokensOf_cons, tokensOf_nil, List.append_nil, Outline.between_self] at htokens
    have hnil : s.tokens = [] := (List.append_eq_nil_iff.mp htokens).2
    simp [Shard.isToken, hnil] at ht
  | succ j =>
    have hlt : j < o.size := Nat.lt_of_succ_lt hk.lt
    obtain ⟨f, y, b, hseat⟩ := h.seat j hlt
    obtain ⟨mid, hfront, -, hmid⟩ :=
      hseat.split_stop.between h.sound hk.split_start (h.placed.stop_le_start (Nat.lt_succ_self j) hk.lt)
    rw [hfront, tokensOf_append, hseat.tokens_through, List.append_right_eq_self] at htokens
    rcases List.eq_nil_or_concat mid with rfl | ⟨mid, z, rfl⟩
    · rw [List.append_nil] at hfront
      obtain ⟨rfl, hlast⟩ := List.append_inj' hfront rfl
      obtain rfl := (List.cons.inj hlast).1
      rw [textOf_nil, List.length_nil] at hmid
      have hle : o.stop j ≤ o.start (j + 1) := h.placed.stop_le_start (Nat.lt_succ_self j) hk.lt
      exact ⟨j, rfl, by omega, front, b, hseat⟩
    · rw [List.concat_eq_append] at hfront htokens
      rw [← List.append_assoc] at hfront
      obtain ⟨-, hlast⟩ := List.append_inj' hfront rfl
      obtain rfl := (List.cons.inj hlast).1
      rw [tokensOf_append, tokensOf_cons, tokensOf_nil, List.append_nil] at htokens
      have hnil : s.tokens = [] := (List.append_eq_nil_iff.mp htokens).2
      simp [Shard.isToken, hnil] at ht

/-- A shard directly behind a token is the token behind it, or none. -/
theorem Seated.ahead (h : Seated ss o) (hk : Seat ss o k front x back) (hy : back.head? = some y)
    (ht : y.isToken) : o.start (k + 1) = o.stop k ∧ ∃ f b, Seat ss o (k + 1) f y b := by
  obtain ⟨back, rfl⟩ := List.head?_eq_some_iff.mp hy
  have hlt : k + 1 < o.size := by
    have hall := congrArg List.length h.tokens
    rw [List.length_map] at hall
    have hthrough := congrArg List.length hk.tokens_through
    have hlength : (o.between 0 (k + 1)).length = k + 1 := Outline.length_between hk.lt
    have hpos : 0 < y.tokens.length := by
      rw [List.length_pos_iff]
      rintro hnil
      simp [Shard.isToken, hnil] at ht
    rw [hk.split_stop.eq, tokensOf_append, tokensOf_cons, List.length_append, List.length_append,
      hthrough, List.length_map, hlength] at hall
    rw [Outline.size, ← Array.length_toList]
    omega
  obtain ⟨f, z, b, hseat⟩ := h.seat (k + 1) hlt
  obtain ⟨mid, hfront, hback, hmid⟩ :=
    hk.split_stop.between h.sound hseat.split_start (h.placed.stop_le_start (Nat.lt_succ_self k) hlt)
  have htokens := hseat.tokens
  rw [hfront, tokensOf_append, hk.tokens_through, List.append_right_eq_self] at htokens
  cases mid with
  | nil =>
    obtain ⟨rfl, rfl⟩ := List.cons.inj hback
    rw [textOf_nil, List.length_nil] at hmid
    have hle : o.stop k ≤ o.start (k + 1) := h.placed.stop_le_start (Nat.lt_succ_self k) hlt
    exact ⟨by omega, f, back, hseat⟩
  | cons m mid =>
    obtain ⟨rfl, -⟩ := List.cons.inj hback
    rw [tokensOf_cons] at htokens
    have hnil : y.tokens = [] := (List.append_eq_nil_iff.mp htokens).1
    simp [Shard.isToken, hnil] at ht

end Shard

open Shard

theorem seated_tokenize {source : List Char} (h : ∀ x ∈ pieces source, x.faults = []) :
    Seated (pieces source) (tokenize .python source).outline := by
  have hpassed := passed_tokenize .python source
  refine ⟨.of_pieces h, placed_tokenize .python source, hpassed.tokens, fun k hk => ?_⟩
  have hget : (tokenize .python source).tokens.toList[k]? = some (tokenize .python source).outline.tokens[k] := by
    rw [Array.getElem?_toList]
    exact Array.getElem?_eq_getElem hk
  obtain ⟨front, x, back, heq, hfront, htoken, hstart, hstop⟩ := hpassed.placed k _ hget
  refine ⟨front, x, back, heq, ?_, ?_, hk, ?_, htoken⟩
  · rw [hstart, Outline.start, Array.getElem?_eq_getElem hk]
    rfl
  · rw [textOf_append, List.length_append, hstart, textOf_cons, textOf_nil, List.append_nil, hstop,
      Outline.stop, Array.getElem?_eq_getElem hk]
    rfl
  · rw [hfront, Outline.between, List.drop_zero, Nat.sub_zero]
    rfl

end Scratchpad
