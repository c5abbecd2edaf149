import Scratchpad.Proofs.Token.Front
import Scratchpad.Token.Outline

/-! The kind of a token by its text: no word and no literal has the text of a bracket or an operator. -/
namespace Scratchpad

/-- A bracket is a token of its own, whatever stands behind it. -/
theorem Token.lexeme_bracket (d : Dialect) (f : Bool) {c : Char} (r : List Char)
    (h : c ∈ ['(', ')', '[', ']', '\x7b', '\x7d']) : lexeme d f c r = ⟨.token .punct, 0, []⟩ := by
  simp only [List.mem_cons, List.not_mem_nil, or_false] at h
  rcases h with rfl | rfl | rfl | rfl | rfl | rfl <;> cases d <;> rfl

theorem Token.isOpener_iff {s : String} : isOpener s ↔ s = "(" ∨ s = "[" ∨ s = "\x7b" := by
  unfold isOpener closer?
  split <;> simp_all

/-- A token is what `lexeme` finds somewhere. -/
def Token.Cut (d : Dialect) (t : Token) : Prop :=
  ∃ f c r, (lexeme d f c r).piece = .token t.kind
    ∧ t.text = .ofList (c :: r.take (lexeme d f c r).more)

theorem Token.Cut.punct {d : Dialect} {t : Token} (h : t.Cut d)
    (hb : isOpener t.text ∨ isCloser t.text) : t.kind = .punct := by
  obtain ⟨f, c, r, hpiece, htext⟩ := h
  have hc : c ∈ ['(', ')', '[', ']', '\x7b', '\x7d'] := by
    have hfirst {b : Char} (hb : t.text = .ofList [b]) : c = b := by
      rw [htext] at hb
      exact (List.cons.inj (String.ofList_injective hb)).1
    rcases hb with hb | hb
    · rcases isOpener_iff.mp hb with hb | hb | hb <;> simp [hfirst hb]
    · simp only [isCloser, Bool.or_eq_true, beq_iff_eq] at hb
      rcases hb with (hb | hb) | hb <;> simp [hfirst hb]
  rw [lexeme_bracket d f r hc] at hpiece
  exact (Piece.token.inj hpiece).symm

namespace Lexed.Cut

theorem cut_run {d : Dialect} {s : Cut} {cs : List Char} (h : ∀ t ∈ s.tokens.toList, t.Cut d) :
    ∀ t ∈ (s.run d cs).tokens.toList, t.Cut d := by
  refine run_keeps (P := fun s _ => ∀ t ∈ s.tokens.toList, t.Cut d) h fun s c r x hx h => ?_
  unfold Cut.take
  split
  · exact h
  · exact h
  · exact h
  · next kind hk =>
    subst hx
    rw [Array.toList_push]
    exact List.forall_mem_append.mpr ⟨h, List.forall_mem_singleton.mpr ⟨_, c, r, hk, rfl⟩⟩

end Lexed.Cut

theorem cut_tokenize (d : Dialect) (source : List Char) :
    ∀ t ∈ (tokenize d source).tokens.toList, t.Cut d := Lexed.Cut.cut_run nofun

/-- Characters that start neither a word nor a literal. -/
def punctuals : List Char :=
  ['(', ')', '[', ']', '\x7b', '\x7d', ',', ';', ':', '?', '=', '<', '>', '!', '&', '|', '+', '-',
    '*', '%', '^', '~', '@']

def isPunctual (w : String) : Bool :=
  match w.toList with
  | c :: _ => punctuals.contains c
  | [] => false

theorem Token.piece_punctual (f : Bool) {c : Char} (r : List Char) (h : c ∈ punctuals) :
    (lexeme .script f c r).piece = .token .punct := by
  unfold punctuals at h
  repeat
    rcases List.mem_cons.mp h with rfl | h
    · rfl
  cases h

theorem Token.Cut.kind_of_punctual {t : Token} (h : t.Cut .script) (hw : isPunctual t.text) :
    t.kind = .punct := by
  obtain ⟨f, c, r, hpiece, htext⟩ := h
  rw [isPunctual, htext, String.toList_ofList] at hw
  rw [piece_punctual f r (List.contains_iff_mem.mp hw)] at hpiece
  exact (Piece.token.inj hpiece).symm

theorem Token.numberLength_pos {hex : Bool} {c : Char} {r : List Char} (h : c.isAlphanum) :
    0 < numberLength hex (c :: r) := by
  cases r with
  | nil => simp [numberLength, h]
  | cons s r =>
    rw [numberLength, if_pos (by simp [h])]
    split <;> omega

/-- A single point is no number. -/
theorem Token.Cut.kind_of_point {t : Token} (h : t.Cut .script) (hw : t.text = ".") : t.kind = .punct := by
  obtain ⟨f, c, r, hpiece, htext⟩ := h
  rw [htext] at hw
  have hchars : c :: r.take (lexeme .script f c r).more = ['.'] :=
    String.ofList_injective (hw.trans (by decide : "." = String.ofList ['.']))
  obtain ⟨rfl, hrest⟩ := List.cons.inj hchars
  have hlexeme : lexeme .script f '.' r = tokenLexeme .script f '.' r := rfl
  cases hd : startsWithDigit r with
  | true =>
    cases r with
    | nil => cases hd
    | cons d r =>
      have hdigit : d.isAlphanum := by simp [Char.isAlphanum, show d.isDigit from hd]
      have hmore : (lexeme .script f '.' (d :: r)).more
          = numberLength (isHex ('.' :: d :: r)) ('.' :: d :: r) - 1 := by
        rw [hlexeme]
        simp [tokenLexeme, hd]
      have hlen : numberLength (isHex ('.' :: d :: r)) ('.' :: d :: r)
          = 1 + numberLength (isHex ('.' :: d :: r)) (d :: r) := by
        rw [numberLength]
        simp
      have hpos := @numberLength_pos (isHex ('.' :: d :: r)) d r hdigit
      rw [hmore, List.take_eq_nil_iff] at hrest
      rcases hrest with hrest | hrest
      · omega
      · cases hrest
  | false =>
    rw [hlexeme] at hpiece
    have hname : startsName .script '.' = false := by decide +kernel
    simp only [tokenLexeme, hd, hname] at hpiece
    exact (Piece.token.inj hpiece).symm

/-- Small letters; they start names. -/
def smallLetters : List Char :=
  ['a', 'b', 'c', 'd', 'e', 'f', 'g', 'h', 'i', 'j', 'k', 'l', 'm', 'n', 'o', 'p', 'q', 'r', 's', 't',
    'u', 'v', 'w', 'x', 'y', 'z']

def isLettered (w : String) : Bool :=
  match w.toList with
  | c :: _ => smallLetters.contains c
  | [] => false

theorem Token.piece_lettered (f : Bool) {c : Char} (r : List Char) (h : c ∈ smallLetters) :
    (lexeme .script f c r).piece = .token .ident := by
  unfold smallLetters at h
  repeat
    rcases List.mem_cons.mp h with rfl | h
    · rfl
  cases h

theorem Token.Cut.kind_of_lettered {t : Token} (h : t.Cut .script) (hw : isLettered t.text) :
    t.kind = .ident := by
  obtain ⟨f, c, r, hpiece, htext⟩ := h
  rw [isLettered, htext, String.toList_ofList] at hw
  rw [piece_lettered f r (List.contains_iff_mem.mp hw)] at hpiece
  exact (Piece.token.inj hpiece).symm

/-- Whether the first character of a text is one that names start with. -/
def isWordLike (w : String) : Bool :=
  match w.toList with
  | c :: _ => Token.startsName .script c
  | [] => false

theorem Token.startsName_of_piece {f : Bool} {c : Char} {r : List Char}
    (h : (lexeme .script f c r).piece = .token .ident) : startsName .script c := by
  unfold lexeme at h
  split at h
  · cases h
  · split at h
    · contradiction
    · contradiction
    · contradiction
    · contradiction
    · cases h
    · cases h
    · simp only [tokenLexeme, reduceCtorEq, if_false, ne_eq, not_true_eq_false] at h
      split at h
      · cases h
      · split at h
        · cases h
        · split at h
          · cases h
          · split at h
            · split at h <;> cases h
            · split at h
              · next hc => exact hc
              · cases h

theorem Token.Cut.isWordLike {t : Token} (h : t.Cut .script) (hk : t.kind = .ident) :
    isWordLike t.text := by
  obtain ⟨f, c, r, hpiece, htext⟩ := h
  rw [hk] at hpiece
  rw [Scratchpad.isWordLike, htext, String.toList_ofList]
  exact startsName_of_piece hpiece

end Scratchpad
