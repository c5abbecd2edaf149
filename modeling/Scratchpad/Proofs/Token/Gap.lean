import Scratchpad.Proofs.Token.Exact

/-!
What a Python text holds between its tokens and comments: blanks, the ends of lines that go on, and
nothing else, unless a backslash stands there before a carriage return that no line feed follows. Such
a backslash is lost, and the character behind the carriage return is passed over unread.
-/
namespace Scratchpad

open Token

/-- What ends a line that goes on: a line feed behind a backslash, with at most a carriage return
between them. -/
def continuations : List (List Char) := [['\\', '\n'], ['\\', '\r', '\n']]

namespace Lexed

variable {l : Lexed} {i : Nat}

/-- A character of the source that stands in no token and in no comment. -/
def Skipped (l : Lexed) (i : Nat) : Prop :=
  i < l.source.length ∧ ¬ Cut.Taken l.tokens.toList l.comments i

/-- A character of a continuation that is skipped as a whole. -/
def Continued (l : Lexed) (i : Nat) : Prop :=
  ∃ a ≤ i, ∃ e ∈ continuations, e <+: l.source.drop a ∧ i < a + e.length ∧
    ∀ j < a + e.length, a ≤ j → l.Skipped j

/-- A skipped character that is no blank and ends no continued line. -/
def Lost (l : Lexed) (i : Nat) : Prop :=
  l.Skipped i ∧ (∀ c ∈ l.source[i]?, c ∉ [' ', '\t', '\r', '\n', '\ufeff', '\u00a0']) ∧
    ¬ l.Continued i

/-- A skipped backslash before a carriage return that no line feed follows. -/
structure Unfed (l : Lexed) (a : Nat) : Prop where
  skipped : l.Skipped a
  backslash : l.source[a]? = some '\\'
  carriage : l.source[a + 1]? = some '\r'
  unfed : l.source[a + 2]? ≠ some '\n'

instance {tokens : List Token} {comments : List Comment} : Decidable (Cut.Taken tokens comments i) :=
  inferInstanceAs (Decidable (_ ∨ _))

instance : Decidable (l.Skipped i) := inferInstanceAs (Decidable (_ ∧ _))

instance : Decidable (l.Continued i) :=
  inferInstanceAs (Decidable (∃ a ≤ i, ∃ e ∈ continuations, _ ∧ _ ∧ ∀ j < a + e.length, _))

-- The middle part is decided by the one character at `i`, not by a run over all characters.
instance : Decidable (l.Lost i) :=
  @instDecidableAnd _ _ inferInstance <|
    @instDecidableAnd _ _ (Option.decidableForallMem _) inferInstance

/-- A continuation has its backslash in front, and a line feed or a carriage return and a line feed
behind it. -/
theorem Unfed.not_continued (h : l.Unfed i) : ¬ l.Continued i := by
  rintro ⟨a, hai, e, he, ⟨r, hr⟩, hie, -⟩
  have hchar : ∀ k, k < e.length → l.source[a + k]? = e[k]? := fun k hk => by
    rw [← List.getElem?_drop, ← hr, List.getElem?_append_left hk]
  obtain ⟨k, rfl⟩ := Nat.exists_eq_add_of_le hai
  have hk : k < e.length := Nat.lt_of_add_lt_add_left hie
  have hfirst := (hchar k hk).symm.trans h.backslash
  simp only [continuations, List.mem_cons, List.not_mem_nil, or_false] at he
  rcases he with rfl | rfl
  · obtain rfl : k = 0 := by
      match k, hk with
      | 0, _ => rfl
      | 1, _ => simp at hfirst
    exact absurd ((hchar 1 (by decide)).symm.trans h.carriage) (by decide)
  · obtain rfl : k = 0 := by
      match k, hk with
      | 0, _ => rfl
      | 1, _ => simp at hfirst
      | 2, _ => simp at hfirst
    exact h.unfed (hchar 2 (by decide))

theorem Unfed.lost (h : l.Unfed i) : l.Lost i := by
  refine ⟨h.skipped, fun c hc => ?_, h.not_continued⟩
  obtain rfl : '\\' = c := Option.some.inj (h.backslash.symm.trans hc)
  decide

end Lexed

/-- How much of a text a joint at its front takes. -/
inductive Joins : List Char → Nat → Prop where
  | feed {r : List Char} : Joins ('\\' :: '\n' :: r) 2
  | lastReturn : Joins ['\\', '\r'] 2
  | return {c : Char} {r : List Char} : Joins ('\\' :: '\r' :: c :: r) 3

theorem Token.Front.joins {f : Bool} {d : Dialect} {c : Char} {r : List Char} {x : Lexeme}
    (h : Front f d c r x) (hx : x.piece = .joint) : Joins (c :: r) (c :: r.take x.more).length := by
  cases h with
  | feed => exact .feed
  | lastReturn => exact .lastReturn
  | «return» => exact .return
  | token h _ =>
    obtain ⟨kind, hk⟩ := piece_tokenLexeme (d := d) (f := f) (c := c) (r := r)
    cases hk.symm.trans hx
  | _ => cases hx

namespace Lexed.Cut

variable {source cs rest r : List Char} {s : Cut} {d : Dialect} {x : Lexeme} {c : Char} {i : Nat}

/-- A piece takes its own characters if it is a token or a comment, and none otherwise. -/
theorem taken_take : Taken (s.take x cs).tokens.toList (s.take x cs).comments i ↔
    Taken s.tokens.toList s.comments i ∨
      (x.piece ≠ .blank ∧ x.piece ≠ .joint ∧ s.offset ≤ i ∧ i < s.offset + cs.length) := by
  unfold Cut.take
  cases x.piece with
  | blank | joint => simp
  | comment =>
    simp only [Taken, List.exists_mem_cons_iff, ne_eq, reduceCtorEq, not_false_eq_true, true_and]
    rw [or_assoc]
    exact or_congr_right or_comm
  | token kind =>
    simp only [Taken, Array.toList_push, List.mem_append, List.mem_singleton, ne_eq, reduceCtorEq,
      not_false_eq_true, true_and, or_and_right, exists_or, exists_eq_left]
    rw [or_right_comm]

theorem Beside.lt_of_taken (h : Beside d source s rest)
    (ht : Taken s.tokens.toList s.comments i) : i < s.offset := by
  rcases ht with ⟨t, ht, -, hi⟩ | ⟨e, he, -, hi⟩
  · exact Nat.lt_of_lt_of_le hi (h.placed t ht).2
  · exact Nat.lt_of_lt_of_le hi (h.comment e he).2

/-- An offset behind `a` at which a joint stands, none of whose characters is taken. -/
def Within (source : List Char) (s : Cut) (i a n : Nat) : Prop :=
  Joins (source.drop a) n ∧ a ≤ i ∧ i < a + n ∧ a + n ≤ s.offset ∧
    ∀ j < a + n, a ≤ j → ¬ Taken s.tokens.toList s.comments j

/-- A cut of a Python text in progress: what it took into no token and no comment is a blank or
belongs to a joint. -/
structure Gapped (source : List Char) (s : Cut) (rest : List Char) : Prop
    extends Beside .python source s rest where
  gap : ∀ i < s.offset, ∀ c, source[i]? = some c →
    Taken s.tokens.toList s.comments i ∨ isBlank c ∨ ∃ a n, Within source s i a n

theorem Gapped.start (source : List Char) : Gapped source {} source :=
  ⟨.start _ source, fun _ h => absurd h (Nat.not_lt_zero _)⟩

theorem Within.take {a n : Nat} (h : Within source s i a n) (x : Lexeme) (cs : List Char) :
    Within source (s.take x cs) i a n := by
  obtain ⟨hjoins, hai, hin, hoffset, hfree⟩ := h
  refine ⟨hjoins, hai, hin, ?_, fun j hjn haj htaken => ?_⟩
  · rw [offset_take]
    exact Nat.le_add_right_of_le hoffset
  · rcases taken_take.mp htaken with htaken | ⟨-, -, hj, -⟩
    · exact hfree j hjn haj htaken
    · omega

theorem Gapped.take {f : Bool} (hx : Front f .python c r x) (h : Gapped source s (c :: r)) :
    Gapped source (s.take x (c :: r.take x.more)) (r.drop x.more) := by
  refine ⟨h.toBeside.take hx, fun i hi c' hc' => ?_⟩
  rw [offset_take] at hi
  -- in front nothing changes, and the new piece takes all of its own characters or none of them
  by_cases hlt : i < s.offset
  · rcases h.gap i hlt c' hc' with htaken | hblank | ⟨a, n, hwithin⟩
    · exact .inl (taken_take.mpr (.inl htaken))
    · exact .inr (.inl hblank)
    · exact .inr (.inr ⟨a, n, hwithin.take x _⟩)
  · have hle := Nat.le_of_not_lt hlt
    cases hp : x.piece with
    | comment | token =>
      refine .inl (taken_take.mpr (.inr ?_))
      rw [hp]
      exact ⟨nofun, nofun, hle, hi⟩
    | blank =>
      obtain ⟨hblank, hmore⟩ := hx.of_blank hp
      obtain rfl : i = s.offset := by
        rw [hmore] at hi
        exact Nat.le_antisymm (Nat.le_of_lt_succ hi) hle
      have hfirst : source[s.offset]? = some c := by
        rw [← Nat.add_zero s.offset, ← List.getElem?_drop, h.rest]
        rfl
      obtain rfl : c = c' := Option.some.inj (hfirst.symm.trans hc')
      exact .inr (.inl hblank)
    | joint =>
      refine .inr (.inr ⟨s.offset, _, h.rest ▸ hx.joins hp, hle, hi, ?_, fun j _ hj htaken => ?_⟩)
      · rw [offset_take]
      · rcases taken_take.mp htaken with htaken | ⟨-, hjoint, -⟩
        · exact Nat.not_lt.mpr hj (h.toBeside.lt_of_taken htaken)
        · exact hjoint hp

end Lexed.Cut

namespace Lexed

variable {source : List Char} {i : Nat}

/-- A skipped character is a blank, or belongs to a joint that is skipped as a whole. -/
theorem Skipped.blank_or_joins (h : (tokenize .python source).Skipped i) :
    (∀ c ∈ source[i]?, isBlank c) ∨ ∃ a n, Joins (source.drop a) n ∧ a ≤ i ∧ i < a + n ∧
      ∀ j < a + n, a ≤ j → (tokenize .python source).Skipped j := by
  have hgapped := Cut.run_of_take (d := .python) (P := Cut.Gapped source) (.start source)
    fun _ _ _ _ => Cut.Gapped.take
  have hend : (Cut.run .python {} source).offset = source.length :=
    Nat.le_antisymm hgapped.within (List.drop_eq_nil_iff.mp hgapped.rest)
  have htaken : ∀ j, Cut.Taken (tokenize .python source).tokens.toList
      (tokenize .python source).comments j ↔ Cut.Taken (Cut.run .python {} source).tokens.toList
        (Cut.run .python {} source).comments j := fun j => by
    simp only [tokenize, Cut.Taken, List.mem_reverse]
  have hi : i < source.length := h.1
  rcases hgapped.gap i (hend ▸ hi) _ (List.getElem?_eq_getElem hi) with
    hin | hblank | ⟨a, n, hjoins, hai, hin, hstop, hfree⟩
  · exact absurd ((htaken i).mpr hin) h.2
  · refine .inl fun c hc => ?_
    rw [List.getElem?_eq_getElem hi] at hc
    exact Option.some.inj hc ▸ hblank
  · refine .inr ⟨a, n, hjoins, hai, hin, fun j hjn haj => ⟨?_, fun hj => ?_⟩⟩
    · exact Nat.lt_of_lt_of_le hjn (hend ▸ hstop)
    · exact hfree j hjn haj ((htaken j).mp hj)

/-- A backslash before a carriage return without its line feed is the one thing that a Python text
loses, together with the character behind the carriage return. -/
theorem lost_tokenize (source : List Char) :
    (∀ a, (tokenize .python source).Unfed a → (tokenize .python source).Lost a) ∧
    ∀ i, (tokenize .python source).Lost i →
      ∃ a, (tokenize .python source).Unfed a ∧ (i = a ∨ i = a + 2) := by
  refine ⟨fun a h => h.lost, fun i ⟨hskipped, hblank, hcontinued⟩ => ?_⟩
  rcases hskipped.blank_or_joins with h | ⟨a, n, hjoins, hai, hin, hfree⟩
  · have hi := List.getElem?_eq_getElem hskipped.1
    exact absurd (isBlank_iff.mp (h _ hi)) (hblank _ hi)
  have hchar : ∀ k, source[a + k]? = (source.drop a)[k]? := fun k => List.getElem?_drop.symm
  have hreturn : ∀ r, source.drop a = '\\' :: '\r' :: r → i ≠ a + 1 := by
    rintro r hr rfl
    exact hblank '\r' ((hchar 1).trans (by rw [hr]; rfl)) (by decide)
  have hunfed : ∀ r, source.drop a = '\\' :: '\r' :: r → r.head? ≠ some '\n' →
      (tokenize .python source).Unfed a := fun r hr hhead =>
    ⟨hfree a (Nat.lt_of_le_of_lt hai hin) (Nat.le_refl a), (hchar 0).trans (by rw [hr]; rfl),
      (hchar 1).trans (by rw [hr]; rfl), fun hfeed => hhead <| by
        rw [List.head?_eq_getElem?, ← hfeed]
        exact ((hchar 2).trans (by rw [hr]; rfl)).symm⟩
  generalize hdrop : source.drop a = rest at hjoins
  cases hjoins with
  | feed =>
    exact absurd ⟨a, hai, ['\\', '\n'], by decide, ⟨_, hdrop.symm⟩, hin, hfree⟩ hcontinued
  | lastReturn =>
    have hne := hreturn _ hdrop
    exact ⟨a, hunfed _ hdrop nofun, .inl (by omega)⟩
  | «return» =>
    rename_i c r
    have hne := hreturn _ hdrop
    by_cases hc : c = '\n'
    · subst hc
      exact absurd ⟨a, hai, ['\\', '\r', '\n'], by decide, ⟨_, hdrop.symm⟩, hin, hfree⟩ hcontinued
    · exact ⟨a, hunfed _ hdrop (by simpa using hc), by omega⟩

/-- The backslash of a call that is broken off in front of a carriage return is lost, and so is the
parenthesis that closes the call. -/
theorem lost_tokenize_of_call :
    let l := tokenize .python "f(\\\r)".toList
    l.Unfed 2 ∧ l.Lost 2 ∧ l.Lost 4 ∧ ∃ a, l.Unfed a ∧ (4 = a ∨ 4 = a + 2) := by
  intro l
  have hunfed : l.Unfed 2 := ⟨by decide +kernel, rfl, rfl, by decide +kernel⟩
  have hlost : l.Lost 4 := by decide +kernel
  obtain ⟨hbackslash, hbehind⟩ := lost_tokenize "f(\\\r)".toList
  exact ⟨hunfed, hbackslash 2 hunfed, hlost, hbehind 4 hlost⟩

end Lexed

end Scratchpad
