import Scratchpad.Proofs.Loop
import Scratchpad.Proofs.Token.Matching
import Scratchpad.Proofs.Token.Termination
import Scratchpad.Text.Edit

/-!
Reading that takes nothing for granted. Where the definitions of the passes answer a question about a
token that is not there with a default, here the reading fails; so does it for a piece of a text
whose ends are not in the text, not in order or within a character, and a loop that does not end has
no result.
-/
namespace Scratchpad

open Text (Edit slice byteSize byteOffset)

namespace Checked

variable {α β : Type}

/-- What is read off these tokens and their partners, all of which have to be there. -/
def reading (o : Outline) (is : List Nat) (x : α) : Option α :=
  if is.all fun i => i < o.tokens.size && i < o.partners.size then some x else none

/-- What is collected from all elements of a list. -/
def collect (f : α → Option (List β)) : List α → Option (List β)
  | [] => some []
  | a :: as => do
    let found ← f a
    let rest ← collect f as
    return found ++ rest

theorem collect_eq {f : α → Option (List β)} {g : α → List β} {as : List α}
    (h : ∀ a ∈ as, f a = some (g a)) : collect f as = some (as.flatMap g) := by
  induction as with
  | nil => rfl
  | cons a as ih =>
    obtain ⟨ha, has⟩ := List.forall_mem_cons.mp h
    rw [collect, ha, ih has]
    rfl

theorem collect_filter_eq {f : α → Option (List β)} {p : α → Bool} {g : α → List β} {as : List α}
    (h : ∀ a ∈ as, f a = some (if p a then g a else [])) :
    collect f as = some ((as.filter p).flatMap g) := by
  induction as with
  | nil => rfl
  | cons a as ih =>
    obtain ⟨ha, has⟩ := List.forall_mem_cons.mp h
    rw [collect, ha, ih has, List.filter_cons]
    split <;> rfl

/-! ### Pieces of texts -/

/-- A text cut in two behind its first `n` bytes, where a character has to end. -/
def splitBytes : Nat → List Char → Option (List Char × List Char)
  | 0, cs => some ([], cs)
  | _ + 1, [] => none
  | n + 1, c :: cs =>
    if c.utf8Size ≤ n + 1 then
      (splitBytes (n + 1 - c.utf8Size) cs).map fun (front, back) => (c :: front, back)
    else none

/-- The characters from `start` up to `stop`, which are cut out byte by byte. -/
def piece (source : List Char) (start stop : Nat) : Option (List Char) :=
  if source.length < stop then none
  else do
    let (front, _) ← splitBytes (byteOffset source stop) source
    let (_, cs) ← splitBytes (byteOffset source start) front
    return cs

theorem splitBytes_append (front back : List Char) :
    splitBytes (byteSize front) (front ++ back) = some (front, back) := by
  induction front with
  | nil => rw [byteSize, splitBytes, List.nil_append]
  | cons c front ih =>
    obtain ⟨n, hn⟩ : ∃ n, byteSize (c :: front) = n + 1 :=
      Nat.exists_eq_succ_of_ne_zero (Nat.ne_of_gt (Text.byteSize_pos (List.cons_ne_nil c front)))
    have hsize : c.utf8Size + byteSize front = n + 1 := hn
    rw [hn, List.cons_append, splitBytes, if_pos (by omega), ← hsize, Nat.add_sub_cancel_left, ih]
    rfl

theorem piece_eq {source : List Char} {start stop : Nat} (h : start ≤ stop)
    (hs : stop ≤ source.length) : piece source start stop = some (slice source start stop) := by
  have hfront := splitBytes_append (source.take stop) (source.drop stop)
  have hback := splitBytes_append (source.take start) (slice source start stop)
  rw [List.take_append_drop] at hfront
  rw [Text.take_append_slice h] at hback
  simp only [piece, if_neg (Nat.not_lt.mpr hs), byteOffset, hfront, Option.bind_eq_bind,
    Option.bind_some, hback]
  rfl

/-- Takes everything but the line breaks out. -/
def blank (source : List Char) (start stop : Nat) : Option Edit :=
  (piece source start stop).map fun cs => ⟨start, stop, .replace, Edit.lineBreaks cs⟩

theorem blank_eq {source : List Char} {start stop : Nat} (h : start ≤ stop)
    (hs : stop ≤ source.length) : blank source start stop = some (.blank source start stop) := by
  rw [blank, piece_eq h hs]
  rfl

/-- The text from `cursor` on with edits carried out; one that reaches into an earlier one, ends
before it starts or ends outside the text is left out. -/
def splice (source : List Char) (cursor : Nat) : List Edit → Option (List Char)
  | [] => piece source cursor source.length
  | e :: es =>
    if e.start < cursor || e.stop < e.start || source.length < e.stop then splice source cursor es
    else do
      let front ← piece source cursor e.start
      let back ← splice source e.stop es
      return front ++ e.text.toList ++ back

/-- The text with edits carried out in their order. -/
def carryOut (edits : List Edit) (source : List Char) : Option (List Char) :=
  splice source 0 (edits.mergeSort Edit.le)

theorem splice_eq {source : List Char} {es : List Edit} {cursor : Nat} (h : cursor ≤ source.length) :
    splice source cursor es =
      some (Edit.splice cursor (source.drop cursor) (Edit.keep source.length cursor es)) := by
  induction es generalizing cursor with
  | nil =>
    rw [splice, piece_eq h (Nat.le_refl _), Edit.keep, Edit.splice, slice,
      List.take_of_length_le (Nat.le_of_eq List.length_drop)]
  | cons e es ih =>
    rw [splice, Edit.keep]
    split
    · next hout =>
      rw [if_neg (by simp at hout; omega), ih h]
    · next hin =>
      simp only [Bool.or_eq_true, decide_eq_true_eq, not_or, Nat.not_lt] at hin
      obtain ⟨⟨hstart, hstop⟩, hlength⟩ := hin
      have hdrop : (source.drop cursor).drop (e.stop - cursor) = source.drop e.stop := by
        rw [List.drop_drop, Nat.add_sub_cancel' (Nat.le_trans hstart hstop)]
      rw [if_pos ⟨hstart, hstop, hlength⟩, piece_eq hstart (Nat.le_trans hstop hlength), ih hlength,
        Edit.splice, hdrop]
      rfl

/-- Carrying edits out reads no piece that is not there, whatever the edits are. -/
theorem carryOut_eq (edits : List Edit) (source : List Char) :
    carryOut edits source = some (Edit.apply edits source) := splice_eq (Nat.zero_le _)

end Checked

/-! ### Tokens -/

/-- An outline in which tokens are placed, and those that are paired are there. -/
structure Outline.Whole (o : Outline) : Prop extends o.Placed where
  partners : o.partners.size = o.size
  closing : ∀ {i c} {h : i < c}, o.closing? i = some ⟨c, h⟩ → c < o.size

theorem whole_tokenize (d : Dialect) (source : List Char) : (tokenize d source).outline.Whole where
  toPlaced := placed_tokenize d source
  partners := Lexed.size_matched
  closing {i c h} hc := by
    have hpair : (tokenize d source).outline.partner? i = some c := by
      unfold Outline.closing? at hc
      split at hc
      · next hp =>
        split at hc
        · cases hc
          exact hp
        · cases hc
      · cases hc
    have hsound := (tokenize d source).sound_brackets
    exact hsound.lt_length (hsound.symm (Lexed.partner?_eq_some.mp hpair))

namespace Checked

/-- Brackets matched; a partner is noted where there is a place for it. -/
def matchFrom (m : Token.Matching) (i : Nat) : List Token → Option Token.Matching
  | [] => some m
  | t :: ts =>
    if (i :: m.stack.map Prod.fst).all (· < m.partners.size) then matchFrom (m.step i t) (i + 1) ts
    else none

/-- A text cut into tokens by the reader. Their texts and those of the comments are pieces of it. -/
noncomputable def read (d : Dialect) (source : List Char) : Option (Lexed × Outline) := do
  let x ← Scratchpad.read? d source
  let m ← matchFrom ⟨[], .replicate x.tokens.size none⟩ 0 x.tokens.toList
  if x.tokens.toList.all (fun t => piece source t.start t.stop == some t.text.toList)
      && x.comments.all (fun e => piece source e.start e.stop == some e.text.toList) then
    return (x, ⟨source, x.tokens, m.partners⟩)
  else none

/-- Takes the tokens from `first` through `last` out. -/
def removal (o : Outline) (first last : Nat) : Option Edit := do
  let (start, stop) ← reading o [first, last] (o.start first, o.stop last)
  blank o.source start stop

/-- Takes the tokens from `first` up to `next` out, and what stands in front of that. -/
def removalUpTo (o : Outline) (first next : Nat) : Option Edit := do
  let (start, stop) ← reading o [first, next] (o.start first, o.start next)
  blank o.source start stop

variable {α : Type} {o : Outline} {i j : Nat} {x : α}

theorem reading_eq (h : o.Whole) {is : List Nat} (his : ∀ i ∈ is, i < o.size) :
    reading o is x = some x := by
  refine if_pos (List.all_eq_true.mpr fun i hi => ?_)
  have hlt : i < o.tokens.size := his i hi
  rw [h.partners]
  exact Bool.and_eq_true_iff.mpr ⟨decide_eq_true hlt, decide_eq_true hlt⟩

theorem reading_one (h : o.Whole) (hi : i < o.size) : reading o [i] x = some x :=
  reading_eq h (List.forall_mem_singleton.mpr hi)

theorem reading_two (h : o.Whole) (hi : i < o.size) (hj : j < o.size) :
    reading o [i, j] x = some x :=
  reading_eq h (List.forall_mem_cons.mpr ⟨hi, List.forall_mem_singleton.mpr hj⟩)

theorem removal_eq (h : o.Whole) (hij : i ≤ j) (hj : j < o.size) :
    removal o i j = some (.blank o.source (o.start i) (o.stop j)) := by
  rw [removal, reading_two h (Nat.lt_of_le_of_lt hij hj) hj]
  have hle := Nat.le_trans (h.start_le_start hij hj) (Nat.le_of_lt (h.start_lt_stop hj))
  exact blank_eq hle (h.stop_le j)

theorem removalUpTo_eq (h : o.Whole) (hij : i ≤ j) (hj : j < o.size) :
    removalUpTo o i j = some (.blank o.source (o.start i) (o.start j)) := by
  rw [removalUpTo, reading_two h (Nat.lt_of_le_of_lt hij hj) hj]
  exact blank_eq (h.start_le_start hij hj) (h.start_le j)

theorem matchFrom_eq {m : Token.Matching} {front ts : List Token} (h : m.Sound front)
    (hsize : front.length + ts.length ≤ m.partners.size) :
    matchFrom m front.length ts = some (Token.matchFrom m front.length ts) := by
  induction ts generalizing m front with
  | nil => rfl
  | cons t ts ih =>
    rw [List.length_cons] at hsize
    have hall : (front.length :: m.stack.map Prod.fst).all (· < m.partners.size) := by
      refine List.all_eq_true.mpr (List.forall_mem_cons.mpr ⟨decide_eq_true (by omega), fun i hi => ?_⟩)
      obtain ⟨y, hy, rfl⟩ := List.mem_map.mp hi
      have hlt := h.open_lt hy
      exact decide_eq_true (by omega)
    have hrest := ih (h.step (t := t) (by omega))
      (by rw [List.length_append, List.length_singleton, Token.Matching.size_step]; omega)
    rw [List.length_append, List.length_singleton] at hrest
    rw [matchFrom, if_pos hall, hrest]
    rfl

theorem read_eq {d : Dialect} {source : List Char} (h : d = .script → HashesEnclosed source) :
    read d source = some (tokenize d source, (tokenize d source).outline) := by
  have hread := read?_eq h
  have hmatch := @matchFrom_eq _ _ (tokenize d source).tokens.toList
    (Token.Matching.Sound.start (tokenize d source).tokens.size) (by simp)
  have hpiece {start stop : Nat} {text : String} (hs : Text.Spans source start stop)
      (ht : text = .ofList (slice source start stop)) :
      piece source start stop == some text.toList := by
    rw [piece_eq (Nat.le_of_lt hs.start_lt) hs.within, ht, String.toList_ofList]
    exact beq_self_eq_true _
  have hall : (tokenize d source).tokens.toList.all
        (fun t => piece source t.start t.stop == some t.text.toList)
      && (tokenize d source).comments.all
        (fun e => piece source e.start e.stop == some e.text.toList) :=
    Bool.and_eq_true_iff.mpr ⟨
      List.all_eq_true.mpr fun t ht => hpiece (Lexed.token_exact ht).1 (Lexed.token_exact ht).2,
      List.all_eq_true.mpr fun e he => hpiece (Lexed.comment_exact he).1 (Lexed.comment_exact he).2⟩
  rw [List.length_nil] at hmatch
  simp only [read, hread, hmatch, Option.bind_eq_bind, Option.bind_some, if_pos hall]
  rfl

end Checked

end Scratchpad
