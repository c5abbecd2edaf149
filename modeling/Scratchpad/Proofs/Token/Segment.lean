import Scratchpad.Proofs.Token.Stand

/-!
Segments of a Python text: the shards of a sound text between two places that touch a token are cut
off again in front of whatever does not go on with the last of them.
-/
namespace Scratchpad

open Shard (fitsBehind textOf tokensOf Stands)

namespace Token

variable {f f' : Bool} {c : Char} {r : List Char}

/-- Whether a slash may open a regular expression is nothing to Python. -/
theorem lexeme_python : lexeme .python f c r = lexeme .python f' c r := by
  have htoken : tokenLexeme .python f c r = tokenLexeme .python f' c r := by
    simp [tokenLexeme]
  cases hb : isBlank c with
  | true => rw [lexeme_blank hb, lexeme_blank hb]
  | false =>
    cases hg : opensGap .python c r with
    | false => rw [lexeme_token hb hg, lexeme_token hb hg, htoken]
    | true =>
      simp only [opensGap, Bool.or_eq_true, Bool.and_eq_true, decide_eq_true_eq,
        List.head?_eq_some_iff] at hg
      obtain rfl | ⟨rfl, ⟨r, rfl⟩ | ⟨r, rfl⟩⟩ := hg
      · rfl
      · rfl
      · cases r <;> rfl

end Token

open Token

/-- The shards of a Python text. -/
def pieces (cs : List Char) : List Shard := shards .python true cs

theorem shards_python {f : Bool} {cs : List Char} : shards .python f cs = pieces cs := by
  unfold pieces
  induction hn : cs.length using Nat.strongRecOn generalizing f cs with
  | ind n ih =>
    cases cs with
    | nil => rw [shards, shards]
    | cons c r =>
      rw [shards, shards, @lexeme_python f true]
      have hlt : (r.drop (lexeme .python true c r).more).length < n := by
        rw [← hn, List.length_drop, List.length_cons]
        omega
      rw [ih _ hlt rfl, ← ih _ hlt rfl]

@[simp] theorem pieces_nil : pieces [] = [] := by rw [pieces, shards]

theorem textOf_pieces (cs : List Char) : textOf (pieces cs) = cs := Shard.textOf_shards

namespace Shard

variable {f : Bool} {s x : Shard} {xs ys zs : List Shard} {cs r : List Char}

theorem Stands.pieces (h : Stands .python true s r) : pieces (s.text ++ r) = s :: pieces r := by
  rw [Scratchpad.pieces, h.shards, shards_python]

/-- Shards that a text without faults is cut into. -/
structure Sound (ss : List Shard) : Prop where
  cut : pieces (textOf ss) = ss
  faultless : ∀ x ∈ ss, x.faults = []

theorem Sound.of_pieces (h : ∀ x ∈ Scratchpad.pieces cs, x.faults = []) : Sound (Scratchpad.pieces cs) :=
  ⟨by rw [textOf_pieces], h⟩

theorem Sound.tail (h : Sound (s :: xs)) : Stands .python true s (textOf xs) ∧ Sound xs := by
  obtain ⟨hs, hxs⟩ := stands_of_shards h.cut (h.faultless s List.mem_cons_self)
  exact ⟨hs, by rwa [shards_python] at hxs, fun x hx => h.faultless x (List.mem_cons_of_mem _ hx)⟩

theorem Sound.back (h : Sound (xs ++ ys)) : Sound ys := by
  induction xs with
  | nil => exact h
  | cons x xs ih => exact ih h.tail.2

theorem Sound.stands (h : Sound (xs ++ s :: ys)) : Stands .python true s (textOf ys) := h.back.tail.1

/-- A shard that is a token. -/
def isToken (s : Shard) : Bool := !s.tokens.isEmpty

theorem isToken_iff : s.isToken ↔ ∃ kind, s.piece = .token kind := by
  obtain ⟨piece, text, faults⟩ := s
  cases piece <;> simp [isToken, tokens]

theorem Stands.ne_nil (h : Stands .python f s r) : s.text ≠ [] := by
  obtain ⟨c, u, ht, -⟩ := h
  rw [ht]
  exact List.cons_ne_nil _ _

theorem Stands.not_blank (h : Stands .python f s r) (hs : s.isToken) :
    ∃ c u, s.text = c :: u ∧ isBlank c = false := by
  obtain ⟨c, u, ht, hlex⟩ := h
  refine ⟨c, u, ht, Bool.eq_false_iff.mpr fun hb => ?_⟩
  obtain ⟨kind, hk⟩ := isToken_iff.mp hs
  rw [lexeme_blank hb] at hlex
  cases (congrArg Lexeme.piece hlex).trans hk

/-- The place between `xs` and `ys` touches a token. -/
def Touches (xs ys : List Shard) : Prop :=
  (∃ x, xs.getLast? = some x ∧ x.isToken) ∨ ∃ y, ys.head? = some y ∧ y.isToken

/-- A line feed stands between a comment and the next token. -/
theorem mem_of_comment {c : Char} {a b u : List Char} (hc : isBlank c = false)
    (hu : lineComment (u ++ (a ++ c :: b)) = u.length) : '\n' ∈ a := by
  obtain ⟨-, n, hrest⟩ := lineComment_split (u ++ (a ++ c :: b))
  rw [hu, List.drop_left] at hrest
  have hnotFeed : c ≠ '\n' := by
    rintro rfl
    exact absurd hc (by decide)
  have hnotReturn : c ≠ '\r' := by
    rintro rfl
    exact absurd hc (by decide)
  have hfeed : ∀ i, ((u ++ (a ++ c :: b)).dropWhile (· ≠ '\n')).head? = some i → i = '\n' := by
    intro i hi
    have hhead := List.head?_dropWhile_not (· ≠ '\n') (u ++ (a ++ c :: b))
    rw [hi] at hhead
    simpa using hhead
  generalize (u ++ (a ++ c :: b)).dropWhile (· ≠ '\n') = t at hrest hfeed
  clear hu
  induction n generalizing a with
  | zero =>
    rw [List.replicate_zero, List.nil_append] at hrest
    cases a with
    | nil => exact absurd (hfeed c (by rw [← hrest]; rfl)) hnotFeed
    | cons i a =>
      rw [hfeed i (by rw [← hrest]; rfl)]
      exact List.mem_cons_self
  | succ n ih =>
    rw [List.replicate_succ, List.cons_append] at hrest
    cases a with
    | nil => exact absurd (List.cons.inj hrest).1 hnotReturn
    | cons i a => exact List.mem_cons_of_mem _ (ih (List.cons.inj hrest).2)

theorem Sound.textOf_eq_nil (h : Sound (xs ++ ys)) (hnil : textOf xs = []) : xs = [] := by
  cases xs with
  | nil => rfl
  | cons x xs => exact absurd (List.append_eq_nil_iff.mp hnil).1 h.tail.1.ne_nil

/-- What stands up to a token, if not nothing, ends or goes on with a character that is no blank. -/
theorem Touches.split (h : Sound (xs ++ ys)) (ht : Touches xs ys) : ∃ a c b,
    textOf xs ++ textOf ys = a ++ c :: b ∧ isBlank c = false ∧ a <+: textOf xs := by
  obtain ⟨x, hx, htoken⟩ | ⟨y, hy, htoken⟩ := ht
  · obtain ⟨front, rfl⟩ := List.getLast?_eq_some_iff.mp hx
    have hstands : Stands .python true x (textOf ys) := by
      rw [List.append_assoc] at h
      exact h.stands
    obtain ⟨c, u, htext, hc⟩ := hstands.not_blank htoken
    refine ⟨textOf front, c, u ++ textOf ys, ?_, hc, ?_⟩
    · simp [htext]
    · simp
  · obtain ⟨back, rfl⟩ := List.head?_eq_some_iff.mp hy
    obtain ⟨c, u, htext, hc⟩ := h.stands.not_blank htoken
    refine ⟨textOf xs, c, u ++ textOf back, ?_, hc, List.prefix_refl _⟩
    simp [htext]

/-- `r` can stand behind the shards `xs` and `zs`, of which only those in `xs` need to end there. -/
structure Follows (xs zs ys : List Shard) (r : List Char) : Prop where
  soft : ∃ i t, r = i :: t ∧ isSoft .python i ∧
    (zs = [] → ∀ s, xs.getLast? = some s → s.isWord → endsWord .python i)
  touches : Touches (xs ++ zs) ys

theorem Touches.tail (h : Touches (s :: xs) ys) (hs : s.isToken = false) : Touches xs ys := by
  obtain ⟨x, hx, htoken⟩ | hy := h
  · cases xs with
    | nil =>
      obtain rfl : s = x := Option.some.inj hx
      rw [hs] at htoken
      cases htoken
    | cons y xs => exact .inl ⟨x, hx, htoken⟩
  · exact .inr hy

theorem Follows.joint (h : Sound (s :: xs ++ zs ++ ys)) (hf : Follows (s :: xs) zs ys r) :
    Joint .python s (textOf (xs ++ zs)) r := by
  have hrest : Sound (xs ++ zs ++ ys) := h.tail.2
  obtain ⟨c, u, ht, hlex⟩ : Stands .python true s (textOf (xs ++ zs ++ ys)) := h.tail.1
  have hgap (hs : s.isToken = false) : ∃ a k b, textOf (xs ++ zs ++ ys) = a ++ k :: b ∧
      isBlank k = false ∧ a <+: textOf (xs ++ zs) := by
    obtain ⟨a, k, b, hsplit, hk, hprefix⟩ := (hf.touches.tail hs).split hrest
    exact ⟨a, k, b, by rw [textOf_append, hsplit], hk, hprefix⟩
  refine ⟨?_, fun hp _ => ?_, nofun, fun hlast => ?_⟩
  · obtain ⟨i, t, rfl, hi, hends⟩ := hf.soft
    refine ⟨i, t, rfl, hi, fun hnil hword => ?_⟩
    obtain ⟨rfl, rfl⟩ := List.append_eq_nil_iff.mp (hrest.textOf_eq_nil hnil)
    exact hends rfl s rfl hword
  · obtain ⟨a, k, b, hsplit, hk, hprefix⟩ := hgap (by simp [isToken, tokens, hp])
    have hmore := front_lexeme.more_of_comment ((congrArg Lexeme.piece hlex).trans hp)
    rw [hlex, hsplit] at hmore
    exact hprefix.subset (mem_of_comment hk hmore.symm)
  · obtain ⟨rfl, rfl⟩ := List.cons.inj (ht.symm.trans hlast)
    have hpiece : s.piece = .joint := by
      refine (congrArg Lexeme.piece hlex).symm.trans ?_
      cases textOf (xs ++ zs ++ ys) <;> rfl
    obtain ⟨a, k, b, hsplit, -, -⟩ := hgap (by simp [isToken, tokens, hpiece])
    have hmore := congrArg Lexeme.more hlex
    cases hr : textOf (xs ++ zs ++ ys) with
    | nil =>
      rw [hr] at hsplit
      exact absurd hsplit.symm (List.append_ne_nil_of_right_ne_nil _ (List.cons_ne_nil _ _))
    | cons i t =>
      rw [hr] at hmore
      exact absurd hmore (show 2 ≠ 1 by decide)

theorem Follows.tail (h : Follows (s :: x :: xs) zs ys r) : Follows (x :: xs) zs ys r := by
  refine ⟨?_, ?_⟩
  · obtain ⟨i, t, hr, hi, hends⟩ := h.soft
    refine ⟨i, t, hr, hi, fun hzs y hy => hends hzs y ?_⟩
    rwa [List.getLast?_cons_cons]
  · obtain ⟨y, hy, htoken⟩ | hy := h.touches
    · exact .inl ⟨y, hy, htoken⟩
    · exact .inr hy

/-- A segment is cut off as it was in front of what stood behind it, and of what can. -/
theorem Sound.segment (h : Sound (xs ++ zs ++ ys)) (hr : r = textOf ys ∨ Follows xs zs ys r) :
    pieces (textOf xs ++ (textOf zs ++ r)) = xs ++ pieces (textOf zs ++ r) := by
  induction xs with
  | nil => rfl
  | cons s xs ih =>
    have hs : Stands .python true s (textOf (xs ++ zs) ++ textOf ys) := by
      rw [← textOf_append]
      exact h.tail.1
    have hstands : Stands .python true s (textOf (xs ++ zs) ++ r) :=
      hs.move (h.faultless s List.mem_cons_self) nofun (hr.imp_right fun hf => hf.joint h)
    have hrest : pieces (textOf xs ++ (textOf zs ++ r)) = xs ++ pieces (textOf zs ++ r) := by
      cases xs with
      | nil => rfl
      | cons x xs => exact ih h.tail.2 (hr.imp_right Follows.tail)
    rw [textOf_append, List.append_assoc] at hstands
    rw [textOf_cons, List.append_assoc, hstands.pieces, hrest, List.cons_append]

end Shard

end Scratchpad
