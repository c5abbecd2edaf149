import Scratchpad.Proofs.Text.Origin
import Scratchpad.Proofs.Token.Front
import Scratchpad.Token.Outline

/-!
The place of a token: its text is what stands in the source between its start and its stop, its line
and column are those of its first character, and tokens stand in the order of the text.
-/
namespace Scratchpad

open Text (Position slice)

/-- A token is a piece of the source that is not empty, and knows where it stands. -/
structure Token.Placed (source : List Char) (t : Token) : Prop where
  start_lt : t.start < t.stop
  within : t.stop ≤ source.length
  text : t.text = .ofList (slice source t.start t.stop)
  position : (⟨t.line, t.column⟩ : Position) = Position.first.after (source.take t.start)

theorem Token.Placed.line {source : List Char} {t : Token} (h : t.Placed source) :
    t.line = 1 + (source.take t.start).count '\n' := by
  have hline := congrArg Position.line h.position
  rwa [Position.line_after] at hline

namespace Lexed.Cut

variable {source rest cs : List Char} {s : Cut} {d : Dialect}

/-- A cut in progress knows how far it is, and its tokens are placed in the order of the text. -/
structure Covers (source : List Char) (s : Cut) (rest : List Char) : Prop where
  rest : source.drop s.offset = rest
  within : s.offset ≤ source.length
  position : s.position = Position.first.after (source.take s.offset)
  placed : ∀ t ∈ s.tokens.toList, t.Placed source ∧ t.stop ≤ s.offset
  ordered : s.tokens.toList.Pairwise fun t u => t.stop ≤ u.start

theorem Covers.start (source : List Char) : Covers source {} source :=
  ⟨rfl, Nat.zero_le _, rfl, nofun, .nil⟩

/-- The cut behind one more piece; only a piece that is a token adds one. -/
theorem Covers.take {x : Token.Lexeme} (h : Covers source s (cs ++ rest)) (hcs : cs ≠ []) :
    Covers source (s.take x cs) rest := by
  have hpos : 0 < cs.length := List.length_pos_iff.mpr hcs
  have hlen : cs.length ≤ source.length - s.offset := by
    rw [← List.length_drop, h.rest, List.length_append]
    omega
  have hw := h.within
  have hslice : slice source s.offset (s.offset + cs.length) = cs := by
    rw [slice, h.rest, Nat.add_sub_cancel_left, List.take_left]
  have hrest : source.drop (s.offset + cs.length) = rest := by
    rw [← List.drop_drop, h.rest, List.drop_left]
  have hposition : s.position.after cs = Position.first.after (source.take (s.offset + cs.length)) := by
    rw [← Text.take_append_slice (Nat.le_add_right _ _), hslice, Position.after_append, h.position]
  have hold : ∀ t ∈ s.tokens.toList, t.Placed source ∧ t.stop ≤ s.offset + cs.length :=
    fun t ht => ⟨(h.placed t ht).1, Nat.le_add_right_of_le (h.placed t ht).2⟩
  unfold Cut.take
  cases x.piece with
  | blank => exact ⟨hrest, by dsimp only; omega, hposition, hold, h.ordered⟩
  | joint => exact ⟨hrest, by dsimp only; omega, hposition, hold, h.ordered⟩
  | comment => exact ⟨hrest, by dsimp only; omega, hposition, hold, h.ordered⟩
  | token kind =>
    refine ⟨hrest, by dsimp only; omega, hposition, fun t ht => ?_, ?_⟩
    · rw [Array.toList_push] at ht
      rcases List.mem_append.mp ht with ht | ht
      · exact hold t ht
      · rw [List.mem_singleton.mp ht]
        exact ⟨⟨by dsimp only; omega, by dsimp only; omega, by rw [hslice], h.position⟩, Nat.le_refl _⟩
    · rw [Array.toList_push]
      refine List.pairwise_append.mpr ⟨h.ordered, List.pairwise_singleton _ _, fun t ht u hu => ?_⟩
      rw [List.mem_singleton.mp hu]
      exact (h.placed t ht).2

theorem Covers.run (h : Covers source s cs) : Covers source (s.run d cs) [] := by
  refine run_keeps h fun s c r x _ h => Covers.take ?_ (List.cons_ne_nil _ _)
  rwa [List.cons_append, List.take_append_drop]

end Lexed.Cut

variable {source : List Char} {d : Dialect} {t : Token} {i j : Nat}

theorem covers_tokenize (d : Dialect) (source : List Char) :
    Lexed.Cut.Covers source (Lexed.Cut.run d {} source) [] :=
  (Lexed.Cut.Covers.start source).run

/-- An outline in which the tokens are placed in the order of the text. -/
structure Outline.Placed (o : Outline) : Prop where
  token : ∀ t ∈ o.tokens.toList, t.Placed o.source
  ordered : o.tokens.toList.Pairwise fun t u => t.stop ≤ u.start

theorem placed_tokenize (d : Dialect) (source : List Char) : (tokenize d source).outline.Placed :=
  ⟨fun t ht => ((covers_tokenize d source).placed t ht).1, (covers_tokenize d source).ordered⟩

/-- A token with a text is there. -/
theorem Outline.lt_size {o : Outline} (h : o.text i ≠ "") : i < o.size := by
  refine Nat.lt_of_not_le fun hi => h ?_
  simp [Outline.text, Array.getElem?_eq_none (show o.tokens.size ≤ i from hi)]

theorem Outline.upTo_cons {i n : Nat} (h : i < n) : Outline.upTo i n = i :: Outline.upTo (i + 1) n := by
  rw [upTo, List.drop_eq_getElem_cons (by simpa using h), List.getElem_range, upTo]

theorem Outline.upTo_nil {i n : Nat} (h : n ≤ i) : Outline.upTo i n = [] := by
  rw [upTo, List.drop_eq_nil_iff, List.length_range]
  exact h

theorem Outline.mem_upTo {a b i : Nat} : i ∈ Outline.upTo a b ↔ a ≤ i ∧ i < b := by
  simp only [Outline.upTo, List.mem_iff_getElem?, List.getElem?_drop]
  constructor
  · rintro ⟨k, hk⟩
    obtain ⟨hlt, heq⟩ := List.getElem?_eq_some_iff.mp hk
    simp only [List.getElem_range] at heq
    simp only [List.length_range] at hlt
    omega
  · rintro ⟨ha, hb⟩
    exact ⟨i - a, by rw [Nat.add_sub_cancel' ha]; simp [hb]⟩

namespace Outline.Placed

variable {o : Outline}

theorem getElem? (h : o.Placed) (hi : i < o.size) : ∃ t, o.tokens[i]? = some t ∧ t.Placed o.source :=
  ⟨o.tokens[i], Array.getElem?_eq_getElem hi, h.token _ (Array.getElem_mem_toList hi)⟩

theorem start_lt_stop (h : o.Placed) (hi : i < o.size) : o.start i < o.stop i := by
  obtain ⟨t, ht, hp⟩ := h.getElem? hi
  simp only [start, stop, ht, Option.map_some, Option.getD_some]
  exact hp.start_lt

theorem stop_le (h : o.Placed) (i : Nat) : o.stop i ≤ o.source.length := by
  by_cases hi : i < o.size
  · obtain ⟨t, ht, hp⟩ := h.getElem? hi
    simp only [stop, ht, Option.map_some, Option.getD_some]
    exact hp.within
  · simp [stop, Array.getElem?_eq_none (Nat.le_of_not_lt hi)]

theorem stop_le_start (h : o.Placed) (hij : i < j) (hj : j < o.size) : o.stop i ≤ o.start j := by
  have hi : i < o.size := Nat.lt_trans hij hj
  have hle := List.pairwise_iff_getElem.mp h.ordered i j hi hj hij
  simp only [start, stop, Array.getElem?_eq_getElem hi, Array.getElem?_eq_getElem hj,
    Option.map_some, Option.getD_some]
  exact hle

theorem start_le_start (h : o.Placed) (hij : i ≤ j) (hj : j < o.size) : o.start i ≤ o.start j := by
  rcases Nat.lt_or_eq_of_le hij with hij | rfl
  · exact Nat.le_trans (Nat.le_of_lt (h.start_lt_stop (Nat.lt_trans hij hj))) (h.stop_le_start hij hj)
  · exact Nat.le_refl _

theorem stop_le_stop (h : o.Placed) (hij : i ≤ j) (hj : j < o.size) : o.stop i ≤ o.stop j := by
  rcases Nat.lt_or_eq_of_le hij with hij | rfl
  · exact Nat.le_trans (h.stop_le_start hij hj) (Nat.le_of_lt (h.start_lt_stop hj))
  · exact Nat.le_refl _

theorem start_inj (h : o.Placed) (hi : i < o.size) (hj : j < o.size) (heq : o.start i = o.start j) :
    i = j := by
  rcases Nat.lt_trichotomy i j with hlt | rfl | hlt
  · have hle := h.stop_le_start hlt hj
    have hpos := h.start_lt_stop hi
    omega
  · rfl
  · have hle := h.stop_le_start hlt hi
    have hpos := h.start_lt_stop hj
    omega

theorem stop_inj (h : o.Placed) (hi : i < o.size) (hj : j < o.size) (heq : o.stop i = o.stop j) :
    i = j := by
  rcases Nat.lt_trichotomy i j with hlt | rfl | hlt
  · have hle := h.stop_le_start hlt hj
    have hpos := h.start_lt_stop hj
    omega
  · rfl
  · have hle := h.stop_le_start hlt hi
    have hpos := h.start_lt_stop hi
    omega

theorem start_le (h : o.Placed) (i : Nat) : o.start i ≤ o.source.length := by
  by_cases hi : i < o.size
  · exact Nat.le_trans (Nat.le_of_lt (h.start_lt_stop hi)) (h.stop_le i)
  · simp [start, Array.getElem?_eq_none (Nat.le_of_not_lt hi)]

theorem slice_eq (h : o.Placed) (hi : i < o.size) :
    slice o.source (o.start i) (o.stop i) = (o.text i).toList := by
  obtain ⟨t, ht, hp⟩ := h.getElem? hi
  simp only [start, stop, Outline.text, ht, Option.map_some, Option.getD_some, hp.text,
    String.toList_ofList]

theorem line (h : o.Placed) (hi : i < o.size) :
    o.line i = 1 + (o.source.take (o.start i)).count '\n' := by
  obtain ⟨t, ht, hp⟩ := h.getElem? hi
  simp only [Outline.line, start, ht, Option.map_some, Option.getD_some, hp.line]

theorem line_le_line (h : o.Placed) (hij : i ≤ j) (hj : j < o.size) : o.line i ≤ o.line j := by
  rw [h.line (Nat.lt_of_le_of_lt hij hj), h.line hj,
    ← Text.take_append_slice (h.start_le_start hij hj), List.count_append]
  omega

/-- Lines tell whether a line break stands between the starts of two tokens. -/
theorem mem_slice_iff (h : o.Placed) (hij : i ≤ j) (hj : j < o.size) :
    '\n' ∈ slice o.source (o.start i) (o.start j) ↔ o.line i ≠ o.line j := by
  have hcount : (o.source.take (o.start j)).count '\n' = (o.source.take (o.start i)).count '\n'
      + (slice o.source (o.start i) (o.start j)).count '\n' := by
    rw [← Text.take_append_slice (h.start_le_start hij hj), List.count_append]
  rw [← List.count_pos_iff, h.line (Nat.lt_of_le_of_lt hij hj), h.line hj]
  omega

end Outline.Placed

end Scratchpad
