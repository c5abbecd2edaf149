import Scratchpad.Proofs.Token.Bracket
import Scratchpad.Proofs.Token.Place

/-!
Shards: the pieces that a text is cut into, without their places. What a text is cut into depends on
nothing but the text and whether a slash may open a regular expression at its front.
-/
namespace Scratchpad

open Lexed (regexFits)

/-- A token without its place. -/
def Token.bare (t : Token) : Token := ⟨t.kind, t.text, 0, 0, 0, 0, false⟩

structure Shard where
  piece : Token.Piece
  text : List Char
  faults : List (Nat × Text.Fault)
deriving DecidableEq, Repr

namespace Shard

/-- The token that a shard is, if it is one. -/
def tokens (s : Shard) : List Token :=
  match s.piece with
  | .token kind => [⟨kind, .ofList s.text, 0, 0, 0, 0, false⟩]
  | _ => []

/-- Whether a slash may open a regular expression behind the tokens, or else what `f` says. -/
def fitsBehind (f : Bool) (ts : List Token) : Bool :=
  match ts.getLast? with
  | some t => regexFits (some t)
  | none => f

def textOf (ss : List Shard) : List Char := ss.flatMap text

def tokensOf (ss : List Shard) : List Token := ss.flatMap tokens

/-- The tokens among shards of which the first one stands at offset `n`, with their offsets. -/
def located (n : Nat) : List Shard → List (Nat × Token)
  | [] => []
  | s :: ss => s.tokens.map (n, ·) ++ located (n + s.text.length) ss

end Shard

open Shard (fitsBehind textOf tokensOf)

/-- What `cs` is cut into; `f` says whether a slash may open a regular expression. -/
def shards (d : Dialect) (f : Bool) (cs : List Char) : List Shard :=
  match cs with
  | [] => []
  | c :: r =>
    let x := Token.lexeme d f c r
    let s : Shard := ⟨x.piece, c :: r.take x.more, x.faults⟩
    s :: shards d (fitsBehind f s.tokens) (r.drop x.more)
termination_by cs.length
decreasing_by simp only [List.length_drop, List.length_cons]; omega

namespace Shard

variable {d : Dialect} {f : Bool} {cs : List Char} {s : Shard} {ss us : List Shard} {ts : List Token}

@[simp] theorem textOf_nil : textOf [] = [] := rfl

@[simp] theorem textOf_cons : textOf (s :: ss) = s.text ++ textOf ss := rfl

@[simp] theorem textOf_append : textOf (ss ++ us) = textOf ss ++ textOf us := List.flatMap_append

@[simp] theorem tokensOf_nil : tokensOf [] = [] := rfl

@[simp] theorem tokensOf_cons : tokensOf (s :: ss) = s.tokens ++ tokensOf ss := rfl

@[simp] theorem tokensOf_append : tokensOf (ss ++ us) = tokensOf ss ++ tokensOf us :=
  List.flatMap_append

theorem located_append {n : Nat} :
    located n (ss ++ us) = located n ss ++ located (n + (textOf ss).length) us := by
  induction ss generalizing n with
  | nil => rfl
  | cons s ss ih =>
    rw [List.cons_append, located, located, ih, textOf_cons, List.length_append, List.append_assoc,
      Nat.add_assoc]

theorem map_located {n : Nat} : (located n ss).map Prod.snd = tokensOf ss := by
  induction ss generalizing n with
  | nil => rfl
  | cons s ss ih =>
    rw [located, List.map_append, List.map_map, ih, tokensOf_cons]
    exact congrArg (· ++ tokensOf ss) (List.map_id _)

@[simp] theorem fitsBehind_nil : fitsBehind f [] = f := rfl

theorem fitsBehind_append {us : List Token} :
    fitsBehind f (ts ++ us) = fitsBehind (fitsBehind f ts) us := by
  unfold fitsBehind
  rw [List.getLast?_append]
  cases us.getLast? <;> rfl

theorem regexFits_back {t : Array Token} : regexFits t.back? = fitsBehind true t.toList := by
  unfold fitsBehind
  rw [← Array.getLast?_toList]
  cases t.toList.getLast? <;> rfl

theorem fitsBehind_bare : fitsBehind f (ts.map Token.bare) = fitsBehind f ts := by
  unfold fitsBehind
  rw [List.getLast?_map]
  cases ts.getLast? <;> rfl

/-- Nothing of a text is lost when it is cut. -/
theorem textOf_shards : textOf (shards d f cs) = cs := by
  induction hn : cs.length using Nat.strongRecOn generalizing f cs with
  | ind n ih =>
    cases cs with
    | nil => rw [shards]; rfl
    | cons c r =>
      rw [shards, textOf_cons, ih _ ?_ rfl]
      · rw [List.cons_append, List.take_append_drop]
      · rw [← hn, List.length_drop, List.length_cons]
        omega

end Shard

namespace Lexed.Cut

open Shard

variable {d : Dialect} {cs : List Char} {s : Cut} {done : List Shard}

/-- A cut in progress has come behind the shards `done`. -/
structure Passed (done : List Shard) (s : Cut) : Prop where
  offset : (textOf done).length = s.offset
  located : Shard.located 0 done = s.tokens.toList.map fun t => (t.start, t.bare)
  faults : s.diagnostics = [] ↔ ∀ x ∈ done, x.faults = []
  placed : ∀ k t, s.tokens.toList[k]? = some t → ∃ front x back, done = front ++ x :: back ∧
    tokensOf front = (s.tokens.toList.take k).map Token.bare ∧ x.tokens = [t.bare] ∧
    (textOf front).length = t.start ∧ t.start + x.text.length = t.stop

theorem Passed.tokens (h : Passed done s) : tokensOf done = s.tokens.toList.map Token.bare := by
  rw [← @map_located done 0, h.located, List.map_map]
  rfl

theorem Passed.start : Passed [] {} := ⟨rfl, rfl, by simp, fun _ _ h => by simp at h⟩

theorem Passed.take (h : Passed done s) (x : Token.Lexeme) (cs : List Char) :
    Passed (done ++ [⟨x.piece, cs, x.faults⟩]) (s.take x cs) := by
  have hoffset : (textOf (done ++ [⟨x.piece, cs, x.faults⟩])).length = s.offset + cs.length := by
    rw [textOf_append, List.length_append, h.offset, textOf_cons, textOf_nil, List.append_nil]
  have hfaults : (locate s.position cs x.faults).reverse ++ s.diagnostics = []
      ↔ ∀ y ∈ done ++ [⟨x.piece, cs, x.faults⟩], y.faults = [] := by
    simp only [List.append_eq_nil_iff, List.reverse_eq_nil_iff, locate, List.map_eq_nil_iff, h.faults,
      List.mem_append, List.mem_singleton]
    constructor
    · rintro ⟨hx, hdone⟩ y (hy | rfl)
      · exact hdone y hy
      · exact hx
    · exact fun hall => ⟨hall _ (.inr rfl), fun y hy => hall y (.inl hy)⟩
  have hkept (last : List Shard) : ∀ k t, s.tokens.toList[k]? = some t → ∃ front y back,
      done ++ last = front ++ y :: back ∧
      tokensOf front = (s.tokens.toList.take k).map Token.bare ∧ y.tokens = [t.bare] ∧
      (textOf front).length = t.start ∧ t.start + y.text.length = t.stop := by
    intro k t ht
    obtain ⟨front, y, back, rfl, hrest⟩ := h.placed k t ht
    exact ⟨front, y, back ++ last, by simp, hrest⟩
  have hplain (hx : ∀ kind, x.piece ≠ .token kind) :
      Shard.located 0 (done ++ [⟨x.piece, cs, x.faults⟩])
        = s.tokens.toList.map fun t => (t.start, t.bare) := by
    cases hp : x.piece with
    | token kind => exact absurd hp (hx kind)
    | blank | joint | comment => simp [located_append, Shard.located, Shard.tokens, h.located]
  unfold Cut.take
  split
  · next hx => exact ⟨hoffset, hplain (by simp [hx]), hfaults, hkept _⟩
  · next hx => exact ⟨hoffset, hplain (by simp [hx]), hfaults, hkept _⟩
  · next hx => exact ⟨hoffset, hplain (by simp [hx]), hfaults, hkept _⟩
  · next kind hx =>
    refine ⟨hoffset, ?_, hfaults, fun k t ht => ?_⟩
    · simp [located_append, Shard.located, Shard.tokens, Token.bare, hx, h.located, h.offset]
    · rw [Array.toList_push] at ht ⊢
      by_cases hk : k < s.tokens.toList.length
      · rw [List.getElem?_append_left hk] at ht
        rw [List.take_append_of_le_length (Nat.le_of_lt hk)]
        exact hkept _ k t ht
      · obtain ⟨rfl, rfl⟩ : k = s.tokens.toList.length ∧ t = ⟨kind, .ofList cs, s.offset,
            s.offset + cs.length, s.position.line, s.position.column, s.lineEnded⟩ := by
          rw [List.getElem?_append_right (Nat.le_of_not_lt hk), List.getElem?_singleton] at ht
          split at ht
          · next hzero => exact ⟨by omega, (Option.some.inj ht).symm⟩
          · cases ht
        refine ⟨done, ⟨x.piece, cs, x.faults⟩, [], rfl, ?_, by simp [Shard.tokens, Token.bare, hx],
          h.offset, rfl⟩
        rw [List.take_left, h.tokens]

theorem Passed.run (h : Passed done s) :
    Passed (done ++ shards d (regexFits s.tokens.back?) cs) (s.run d cs) := by
  induction hn : cs.length using Nat.strongRecOn generalizing done s cs with
  | ind n ih =>
    cases cs with
    | nil =>
      rw [Cut.run, shards, List.append_nil]
      exact h
    | cons c r =>
      rw [Cut.run, shards]
      have htake := h.take (Token.lexeme d (regexFits s.tokens.back?) c r)
        (c :: r.take (Token.lexeme d (regexFits s.tokens.back?) c r).more)
      generalize Token.lexeme d (regexFits s.tokens.back?) c r = x at htake ⊢
      have hback : regexFits (s.take x (c :: r.take x.more)).tokens.back?
          = fitsBehind (regexFits s.tokens.back?)
            (Shard.tokens ⟨x.piece, c :: r.take x.more, x.faults⟩) := by
        rw [regexFits_back, ← fitsBehind_bare, ← htake.tokens, tokensOf_append, h.tokens,
          fitsBehind_append, fitsBehind_bare, ← regexFits_back, tokensOf_cons, tokensOf_nil,
          List.append_nil]
      have hlt : (r.drop x.more).length < n := by
        rw [← hn, List.length_drop, List.length_cons]
        omega
      have hrun := ih _ hlt htake rfl
      rwa [List.append_assoc, List.singleton_append, hback] at hrun

end Lexed.Cut

open Lexed.Cut

variable {d : Dialect} {source : List Char}

theorem passed_tokenize (d : Dialect) (source : List Char) :
    Passed (shards d true source) (Lexed.Cut.run d {} source) := Passed.start.run

theorem settleAll_bare {stack : List String} {ts : List Token} :
    Token.settleAll stack (ts.map Token.bare) = Token.settleAll stack ts := by
  rw [Token.settleAll, List.foldlM_map]
  rfl

theorem diagnostics_eq_nil :
    (tokenize d source).diagnostics = [] ↔ ∀ x ∈ shards d true source, x.faults = [] :=
  List.reverse_eq_nil_iff.trans (passed_tokenize d source).faults

/-- A text has no fault if no shard has one and the brackets among the shards settle. -/
theorem firstFault_eq_none : (tokenize d source).firstFault = none ↔
    (∀ x ∈ shards d true source, x.faults = []) ∧
      Token.settleAll [] (tokensOf (shards d true source)) = some [] := by
  have hpassed := passed_tokenize d source
  rw [Lexed.firstFault, Option.or_eq_none_iff, List.head?_eq_none_iff, Lexed.bracketFault,
    Token.bracketFault_eq_none, hpassed.tokens, settleAll_bare, diagnostics_eq_nil]
  rfl

end Scratchpad
