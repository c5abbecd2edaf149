import Scratchpad.Token.Lexed

/-!
What can stand at the front of a text, and the induction over the pieces that a text is cut into.
-/
namespace Scratchpad

namespace Token

variable {d : Dialect} {f : Bool} {c : Char} {r : List Char} {x : Lexeme}

theorem lexeme_blank (hb : isBlank c) : lexeme d f c r = ⟨.blank, 0, []⟩ := by
  unfold lexeme
  exact if_pos hb

/-- Whether what starts with `c` is a comment or joins two lines. -/
def opensGap (d : Dialect) (c : Char) (r : List Char) : Bool :=
  match d with
  | .script => c = '/' && (r.head? = some '/' || r.head? = some '*')
  | .python => c = '#' || (c = '\\' && (r.head? = some '\n' || r.head? = some '\r'))

theorem lexeme_token (hb : isBlank c = false) (hg : opensGap d c r = false) :
    lexeme d f c r = tokenLexeme d f c r := by
  unfold lexeme
  rw [if_neg (by rw [hb]; exact Bool.false_ne_true)]
  split
  · simp [opensGap] at hg
  · simp [opensGap] at hg
  · simp [opensGap] at hg
  · simp [opensGap] at hg
  · simp [opensGap] at hg
  · simp [opensGap] at hg
  · rfl

/-- The pieces that a text can start with. -/
inductive Front (f : Bool) : Dialect → Char → List Char → Lexeme → Prop where
  | blank {d : Dialect} {c : Char} {r : List Char} (h : isBlank c) : Front f d c r ⟨.blank, 0, []⟩
  | feed {r : List Char} : Front f .python '\\' ('\n' :: r) ⟨.joint, 1, []⟩
  | lastReturn : Front f .python '\\' ['\r'] ⟨.joint, 1, []⟩
  | return {c : Char} {r : List Char} : Front f .python '\\' ('\r' :: c :: r) ⟨.joint, 2, []⟩
  | hash {r : List Char} : Front f .python '#' r ⟨.comment, lineComment r, []⟩
  | slashes {r : List Char} : Front f .script '/' ('/' :: r) ⟨.comment, 1 + lineComment r, []⟩
  | block {r : List Char} : Front f .script '/' ('*' :: r)
      (ofExtent .comment 1 (blockComment r) .unterminatedComment)
  | token {d : Dialect} {c : Char} {r : List Char} (h : isBlank c = false)
      (hg : opensGap d c r = false) :
      Front f d c r (tokenLexeme d f c r)

theorem front_gap (hg : opensGap d c r) : Front f d c r (lexeme d f c r) := by
  cases d with
  | script =>
    simp only [opensGap, Bool.and_eq_true, Bool.or_eq_true, decide_eq_true_eq, List.head?_eq_some_iff] at hg
    obtain ⟨rfl, ⟨r, rfl⟩ | ⟨r, rfl⟩⟩ := hg
    · exact .slashes
    · exact .block
  | python =>
    simp only [opensGap, Bool.and_eq_true, Bool.or_eq_true, decide_eq_true_eq, List.head?_eq_some_iff] at hg
    rcases hg with rfl | ⟨rfl, ⟨r, rfl⟩ | ⟨r, rfl⟩⟩
    · exact .hash
    · exact .feed
    · cases r with
      | nil => exact .lastReturn
      | cons c r => exact .return

theorem front_lexeme : Front f d c r (lexeme d f c r) := by
  cases hb : isBlank c with
  | true => exact lexeme_blank (d := d) (f := f) hb ▸ .blank hb
  | false =>
    cases hg : opensGap d c r with
    | true => exact front_gap hg
    | false => exact lexeme_token (f := f) hb hg ▸ .token hb hg

/-- A comment has no line end in it, and behind it the line has nothing but carriage returns. -/
theorem lineComment_split (r : List Char) : '\n' ∉ r.take (lineComment r) ∧
    ∃ n, r.drop (lineComment r) = List.replicate n '\r' ++ r.dropWhile (· ≠ '\n') := by
  have hline : '\n' ∉ r.takeWhile (· ≠ '\n') := fun hmem => by
    simpa using List.all_eq_true.mp (List.all_takeWhile (l := r) (p := (· ≠ '\n'))) _ hmem
  have hrest : r = r.takeWhile (· ≠ '\n') ++ r.dropWhile (· ≠ '\n') :=
    List.takeWhile_append_dropWhile.symm
  have hlength : ((r.takeWhile (· ≠ '\n')).reverse.dropWhile (· = '\r')).reverse.length
      = lineComment r := List.length_reverse
  generalize r.takeWhile (· ≠ '\n') = t at hline hrest hlength
  have hreturns : (t.reverse.takeWhile (· = '\r')).reverse
      = List.replicate (t.reverse.takeWhile (· = '\r')).length '\r' := by
    refine List.eq_replicate_iff.mpr ⟨List.length_reverse, fun c hc => ?_⟩
    simpa using List.all_eq_true.mp List.all_takeWhile c (List.mem_reverse.mp hc)
  have hsplit : t = (t.reverse.dropWhile (· = '\r')).reverse
      ++ (t.reverse.takeWhile (· = '\r')).reverse := by
    rw [← List.reverse_append, List.takeWhile_append_dropWhile, List.reverse_reverse]
  generalize (t.reverse.dropWhile (· = '\r')).reverse = u at hsplit hlength
  have hall : r = u ++ ((t.reverse.takeWhile (· = '\r')).reverse ++ r.dropWhile (· ≠ '\n')) := by
    rw [← List.append_assoc, ← hsplit]
    exact hrest
  have htake : r.take (lineComment r) = u :=
    (congrArg (List.take _) hall).trans (List.take_left' hlength)
  refine ⟨fun hmem => hline ?_, (t.reverse.takeWhile (· = '\r')).length, ?_⟩
  · rw [hsplit, ← htake]
    exact List.mem_append_left _ hmem
  · rw [← hreturns]
    exact (congrArg (List.drop _) hall).trans (List.drop_left' hlength)

theorem piece_tokenLexeme : ∃ kind, (tokenLexeme d f c r).piece = .token kind := by
  unfold tokenLexeme
  dsimp only
  repeat' split
  all_goals exact ⟨_, rfl⟩

theorem Front.of_blank (h : Front f d c r x) (hx : x.piece = .blank) : isBlank c ∧ x.more = 0 := by
  cases h with
  | blank h => exact ⟨h, rfl⟩
  | token h _ =>
    obtain ⟨kind, hk⟩ := piece_tokenLexeme (d := d) (f := f) (c := c) (r := r)
    cases hk.symm.trans hx
  | _ => cases hx

theorem Front.more_of_comment (h : Front f .python c r x) (hx : x.piece = .comment) :
    x.more = lineComment r := by
  cases h with
  | hash => rfl
  | token h _ =>
    obtain ⟨kind, hk⟩ := @piece_tokenLexeme .python f c r
    cases hk.symm.trans hx
  | _ => cases hx

theorem Front.of_joint (h : Front f d c r x) (hx : x.piece = .joint) : d = .python := by
  cases h with
  | token h _ =>
    obtain ⟨kind, hk⟩ := piece_tokenLexeme (d := d) (f := f) (c := c) (r := r)
    cases hk.symm.trans hx
  | feed | lastReturn | «return» => rfl
  | _ => cases hx

theorem tokenLexeme_of_ident (hx : tokenLexeme d f c r = x) (h : x.piece = .token .ident) :
    startsName d c ∧ x = ⟨.token .ident, (r.takeWhile (continuesName d)).length, []⟩ := by
  unfold tokenLexeme at hx
  dsimp only at hx
  repeat' split at hx
  all_goals
    subst hx
    first
    | exact ⟨‹startsName d c = true›, rfl⟩
    | cases h

theorem Front.of_ident (h : Front f d c r x) (hx : x.piece = .token .ident) :
    startsName d c ∧ x.more = (r.takeWhile (continuesName d)).length := by
  cases h with
  | token h _ =>
    obtain ⟨hc, heq⟩ := tokenLexeme_of_ident rfl hx
    exact ⟨hc, congrArg Lexeme.more heq⟩
  | _ => cases hx

end Token

namespace Lexed.Cut

variable {d : Dialect} {s : Cut} {cs : List Char}

/-- What is kept each time a piece is cut off is kept to the end of the text. -/
theorem run_keeps {P : Cut → List Char → Prop} (h : P s cs)
    (htake : ∀ (s : Cut) (c : Char) (r : List Char) (x : Token.Lexeme),
      Token.lexeme d (regexFits s.tokens.back?) c r = x → P s (c :: r) →
        P (s.take x (c :: r.take x.more)) (r.drop x.more)) : P (s.run d cs) [] := by
  induction hn : cs.length using Nat.strongRecOn generalizing s cs with
  | ind n ih =>
    cases cs with
    | nil => rwa [Cut.run]
    | cons c r =>
      rw [Cut.run]
      refine ih _ ?_ (htake s c r _ rfl h) rfl
      rw [← hn, List.length_drop, List.length_cons]
      omega

/-- What every piece keeps, a text keeps to its end. -/
theorem run_of_take {P : Cut → List Char → Prop} (h : P s cs)
    (htake : ∀ (s : Cut) (c : Char) (r : List Char) (x : Token.Lexeme),
      Token.Front (regexFits s.tokens.back?) d c r x → P s (c :: r) →
        P (s.take x (c :: r.take x.more)) (r.drop x.more)) : P (s.run d cs) [] :=
  run_keeps h fun s c r x hx => htake s c r x (hx ▸ Token.front_lexeme)

end Lexed.Cut

end Scratchpad
