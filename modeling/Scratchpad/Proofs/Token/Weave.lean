import Scratchpad.Proofs.Text.Origin
import Scratchpad.Proofs.Token.Row

/-!
Weaving: what a Python text is cut into behind edits at its tokens. The shards that no edit takes out
stay, and those of the inserted texts stand between them, but for a name that stands directly in front
of an inserted one and becomes one name with it.
-/
namespace Scratchpad

open Shard (textOf tokensOf Stands)
open Text (Edit)

namespace Shard

open Token

variable {p : List Char → Prop} {s x : Shard} {ss xs ys seg gone rest done row out joined : List Shard}
  {cs r w : List Char} {c : Char} {e : Edit} {es : List Edit} {cursor : Nat}

/-- What an inserted text of this row must be followed by: a number at its end must end there. -/
def Tail (row : List Shard) (r : List Char) : Prop :=
  ∀ s, row.getLast? = some s → s.isWord → EndsNumber r

/-- A row that begins with a name, or with a mark that ends whatever stands in front of it. -/
inductive Inserted : List Shard → Prop where
  | name {cs : List Char} {row : List Shard} (hcs : IsName cs) (ha : BeginsApart row)
      (hr : Reads (Tail (name cs :: row)) row) (hf : ∀ x ∈ row, x.faults = []) : Inserted (name cs :: row)
  | mark {c : Char} {row : List Shard} (hc : c ∈ [')', ';'])
      (hr : Reads (Tail (mark c :: row)) row) (hf : ∀ x ∈ row, x.faults = []) : Inserted (mark c :: row)

theorem Inserted.reads (h : Inserted row) : Reads (Tail row) row := by
  cases h with
  | name hcs ha hr hf => exact hr.name hcs ha
  | mark hc hr hf =>
    refine hr.mark ?_
    simp only [List.mem_cons, List.not_mem_nil, or_false] at hc ⊢
    tauto

theorem Inserted.faultless (h : Inserted row) : ∀ x ∈ row, x.faults = [] := by
  cases h with
  | name hcs ha hr hf => exact List.forall_mem_cons.mpr ⟨rfl, hf⟩
  | mark hc hr hf => exact List.forall_mem_cons.mpr ⟨rfl, hf⟩

/-- How an inserted row is joined to the segment in front of it. -/
inductive Joined : List Shard → List Shard → List Shard → Prop where
  | apart {seg row : List Shard} : Joined seg row (seg ++ row)
  | fused {seg row : List Shard} {w cs : List Char} :
      Joined (seg ++ [name w]) (name cs :: row) (seg ++ name (w ++ cs) :: row)

/-- `out` is what `rest`, which starts at `cursor`, becomes when the edits are carried out. -/
inductive Woven : Nat → List Shard → List Edit → List Shard → Prop where
  | done {cursor : Nat} {rest : List Shard} : Woven cursor rest [] rest
  | edit {cursor : Nat} {seg gone rest joined out : List Shard} {e : Edit} {es : List Edit}
      (hseg : cursor + (textOf seg).length = e.start) (hgone : e.start + (textOf gone).length = e.stop)
      (hjoined : Joined seg (pieces e.text.toList) joined) (hout : Woven e.stop rest es out) :
      Woven cursor (seg ++ (gone ++ rest)) (e :: es) (joined ++ out)

/-- Behind the shards `front` of a text, and in front of the others, stands the offset `n`. -/
structure Split (ss : List Shard) (n : Nat) (front behind : List Shard) : Prop where
  eq : ss = front ++ behind
  length : (textOf front).length = n

theorem Split.advance {n m : Nat} (h : Split ss n done (seg ++ rest)) (hm : n + (textOf seg).length = m) :
    Split ss m (done ++ seg) rest := by
  refine ⟨by rw [h.eq, List.append_assoc], ?_⟩
  rw [textOf_append, List.length_append, h.length, hm]

theorem length_textOf_pos (h : Sound (xs ++ ys)) (hx : xs ≠ []) : 0 < (textOf xs).length :=
  List.length_pos_iff.mpr fun hnil => hx (h.textOf_eq_nil hnil)

/-- The front up to a later offset goes on behind the one up to an earlier one. -/
theorem Split.between {m n : Nat} {front behind front' behind' : List Shard} (h : Sound ss)
    (hm : Split ss m front behind) (hn : Split ss n front' behind') (hle : m ≤ n) :
    ∃ mid, front' = front ++ mid ∧ behind = mid ++ behind' ∧ (textOf mid).length = n - m := by
  have hm' := hm.length
  have hn' := hn.length
  obtain ⟨mid, hfront, hbehind⟩ | ⟨mid, hfront, hbehind⟩ :=
    List.append_eq_append_iff.mp (hm.eq.symm.trans hn.eq)
  · refine ⟨mid, hfront, hbehind, ?_⟩
    rw [hfront, textOf_append, List.length_append] at hn'
    omega
  · have hnil : mid = [] := by
      refine Decidable.byContradiction fun hne => ?_
      have hsound : Sound (mid ++ behind) := by
        have hall := hn.eq ▸ h
        exact hbehind ▸ hall.back
      have hpos := length_textOf_pos hsound hne
      rw [hfront, textOf_append, List.length_append] at hm'
      omega
    subst hnil
    refine ⟨[], by simpa using hfront.symm, by simpa using hbehind.symm, ?_⟩
    rw [hfront, List.append_nil] at hm'
    simp only [textOf_nil, List.length_nil]
    omega

theorem Split.unique {n : Nat} {f f' b b' : List Shard} (h : Sound ss) (hn : Split ss n f b)
    (hn' : Split ss n f' b') : f = f' ∧ b = b' := by
  obtain ⟨mid, rfl, rfl, hmid⟩ := hn.between h hn' (Nat.le_refl n)
  have hsound : Sound (mid ++ b') := (hn.eq ▸ h).back
  have hnil : mid = [] := hsound.textOf_eq_nil (List.length_eq_zero_iff.mp (by omega))
  simp [hnil]

/-- What an edit writes. -/
def rowOf (e : Edit) : List Shard := pieces e.text.toList

@[simp] theorem textOf_rowOf : textOf (rowOf e) = e.text.toList := textOf_pieces _

/-- An edit at the tokens of a text: what it writes can stand where it starts, and what stands where
it ends can follow. Directly behind a number no name is written. -/
structure Sited (ss : List Shard) (e : Edit) : Prop where
  inserted : Inserted (rowOf e)
  start : ∃ front behind, Split ss e.start front behind ∧ Touches front behind ∧
    ∀ s cs row, front.getLast? = some s → s.isWord → rowOf e = name cs :: row → ∃ w, s = name w ∧ IsName w
  stop : ∃ front behind, Split ss e.stop front behind ∧ Tail (rowOf e) (textOf behind)

/-- What the one edit writes can follow what the other one writes. -/
def Meeting (e f : Edit) : Prop := f.start = e.stop → Tail (rowOf e) f.text.toList

theorem Inserted.begins (h : Inserted row) : ∃ i t, textOf row = i :: t ∧ isSoft .python i ∧
    ((∃ cs rest, row = Shard.name cs :: rest) ∨ endsWord .python i) := by
  cases h with
  | name hcs ha hr hf =>
    obtain ⟨c, u, rfl, hc, -⟩ := hcs
    exact ⟨c, _, rfl, isSoft_of_startsName hc, .inl ⟨_, _, rfl⟩⟩
  | mark hc hr hf =>
    refine ⟨_, _, rfl, ?_⟩
    simp only [List.mem_cons, List.not_mem_nil, or_false] at hc
    obtain rfl | rfl := hc
    · exact ⟨by decide, .inr (by decide +kernel)⟩
    · exact ⟨by decide, .inr (by decide +kernel)⟩

theorem isName_append (hw : IsName w) (hcs : IsName cs) : IsName (w ++ cs) := by
  obtain ⟨c, u, rfl, hc, hu⟩ := hw
  obtain ⟨k, t, rfl, hk, ht⟩ := hcs
  refine ⟨c, u ++ k :: t, rfl, hc, ?_⟩
  intro i hi
  rcases List.mem_append.mp hi with hi | hi
  · exact hu i hi
  · rcases List.mem_cons.mp hi with rfl | hi
    · exact continuesName_of_startsName hk
    · exact ht i hi

/-- A segment with an inserted row behind it. -/
theorem joined_segment (h : Sound (seg ++ ys)) (ht : seg ≠ [] → Touches seg ys) (hi : Inserted row)
    (hw : ∀ s cs rest, seg.getLast? = some s → s.isWord → row = name cs :: rest →
      ∃ w, s = name w ∧ IsName w) (hr : Tail row r) : ∃ joined, Joined seg row joined ∧
      pieces (textOf seg ++ (textOf row ++ r)) = joined ++ pieces r := by
  obtain ⟨i, t, htext, hsoft, hbegins⟩ := hi.begins
  by_cases hnil : seg = []
  · subst hnil
    refine ⟨row, .apart, ?_⟩
    rw [textOf_nil, List.nil_append, hi.reads r hr]
  have htouches := ht hnil
  obtain ⟨front, s, rfl⟩ : ∃ front s, seg = front ++ [s] :=
    ⟨_, _, (List.dropLast_concat_getLast hnil).symm⟩
  by_cases hglued : s.isWord = true ∧ ∃ cs rest, row = name cs :: rest
  · obtain ⟨hword, cs, rest, rfl⟩ := hglued
    obtain ⟨w, rfl, hname⟩ := hw s cs rest (by simp) hword rfl
    cases hi with
    | name hcs ha hread hf =>
      have hfollows : Follows front [name w] ys (textOf (name cs :: rest) ++ r) :=
        ⟨⟨i, t ++ r, by rw [htext]; rfl, hsoft, nofun⟩, htouches⟩
      have hcut := h.segment (.inr hfollows)
      have hfused : Stands .python true (name (w ++ cs)) (textOf rest ++ r) :=
        stands_name (isName_append hname hcs) ha.endsName
      have htail : Tail (name cs :: rest) r := hr
      have htext : textOf [name w] ++ (textOf (name cs :: rest) ++ r)
          = (name (w ++ cs)).text ++ (textOf rest ++ r) := by
        simp [name]
      refine ⟨_, .fused, ?_⟩
      rw [textOf_append, List.append_assoc, hcut, htext, hfused.pieces, hread r htail]
      simp
  · have hfollows : Follows (front ++ [s]) [] ys (textOf row ++ r) := by
      refine ⟨⟨i, t ++ r, by rw [htext]; rfl, hsoft, fun _ x hx hword => ?_⟩, by simpa using htouches⟩
      obtain rfl : s = x := by simpa using hx
      exact hbegins.resolve_left fun hrow => hglued ⟨hword, hrow⟩
    have hsound : Sound ((front ++ [s]) ++ [] ++ ys) := by simpa using h
    have hcut := hsound.segment (.inr hfollows)
    refine ⟨_, .apart, ?_⟩
    rw [textOf_nil, List.nil_append] at hcut
    rw [hcut, hi.reads r hr, List.append_assoc (front ++ [s])]

theorem splice_cons {taken : List Char} (hseg : cs.length = e.start - cursor)
    (htaken : taken.length = e.stop - e.start) (hle : cursor ≤ e.start) (hle' : e.start ≤ e.stop) :
    Edit.splice cursor (cs ++ (taken ++ r)) (e :: es)
      = cs ++ (e.text.toList ++ Edit.splice e.stop r es) := by
  have hdrop : (cs ++ (taken ++ r)).drop (e.stop - cursor) = r := by
    rw [← List.append_assoc]
    refine List.drop_left' ?_
    rw [List.length_append]
    omega
  rw [Edit.splice, hdrop, List.take_left' hseg, List.append_assoc]

/-- What stands behind an edit in the result is what stood behind it, or what the next one writes. -/
theorem tail_splice (hsited : ∀ f ∈ es, Sited ss f) (hmeet : ∀ f ∈ es, Meeting e f)
    (hspaced : Edit.Spaced (textOf ss).length e.stop es) (hrest : Split ss e.stop done rest)
    (ht : Tail (rowOf e) (textOf rest)) : Tail (rowOf e) (Edit.splice e.stop (textOf rest) es) := by
  cases es with
  | nil => exact ht
  | cons f es =>
    intro s hs hword i hi
    obtain ⟨hle, hle', hspaced⟩ := hspaced
    obtain ⟨k, t, htext, -⟩ := (hsited f List.mem_cons_self).inserted.begins
    rw [textOf_rowOf] at htext
    rw [Edit.splice] at hi
    rcases Nat.eq_or_lt_of_le hle with heq | hlt
    · rw [heq, Nat.sub_self, List.take_zero, List.nil_append, htext] at hi
      refine hmeet f List.mem_cons_self heq.symm s hs hword i ?_
      rw [htext]
      exact hi
    · have hlen : f.start - e.stop ≤ (textOf rest).length := by
        have htotal := congrArg (fun ss => (textOf ss).length) hrest.eq
        have hfront := hrest.length
        have hend := hspaced.le
        simp only [textOf_append, List.length_append] at htotal
        omega
      cases hr : textOf rest with
      | nil =>
        rw [hr, List.length_nil] at hlen
        omega
      | cons c r =>
        obtain ⟨n, hn⟩ := Nat.exists_eq_add_of_lt hlt
        have hsub : f.start - e.stop = n + 1 := by omega
        rw [hr, hsub, List.take_succ_cons] at hi
        refine ht s hs hword i ?_
        rw [hr]
        exact hi

/-- Carrying out the edits weaves their rows into the shards. -/
theorem pieces_splice (h : Sound ss) (hsited : ∀ e ∈ es, Sited ss e) (hmeet : es.Pairwise Meeting)
    (hspaced : Edit.Spaced (textOf ss).length cursor es) (hrest : Split ss cursor done rest) :
    ∃ out, Woven cursor rest es out ∧ pieces (Edit.splice cursor (textOf rest) es) = out := by
  induction es generalizing cursor done rest with
  | nil =>
    refine ⟨rest, .done, ?_⟩
    exact (hrest.eq ▸ h).back.cut
  | cons e es ih =>
    obtain ⟨hle, hle', hspaced⟩ := hspaced
    obtain ⟨hsite, hsited⟩ := List.forall_mem_cons.mp hsited
    obtain ⟨hmeet, hmeets⟩ := List.pairwise_cons.mp hmeet
    obtain ⟨front, behind, hfront, htouches, hglue⟩ := hsite.start
    obtain ⟨front', behind', hfront', htail⟩ := hsite.stop
    obtain ⟨seg, rfl, rfl, hseg⟩ := hrest.between h hfront hle
    obtain ⟨gone, rfl, rfl, hgone⟩ := hfront.between h hfront' hle'
    obtain ⟨out, hwoven, hout⟩ := ih hsited hmeets hspaced hfront'
    have hsound : Sound (seg ++ (gone ++ behind')) := (hrest.eq ▸ h).back
    obtain ⟨joined, hjoined, hcut⟩ := joined_segment hsound
      (fun hne => by
        obtain ⟨x, hx, htoken⟩ | hy := htouches
        · have hlast : seg.getLast? = some (seg.getLast hne) := List.getLast?_eq_some_getLast hne
          rw [List.getLast?_append, hlast] at hx
          exact .inl ⟨x, hlast.trans hx, htoken⟩
        · exact .inr hy)
      hsite.inserted
      (fun s cs row hs => hglue s cs row (by
        rw [List.getLast?_append, hs]
        rfl))
      (tail_splice hsited hmeet hspaced hfront' htail)
    rw [textOf_rowOf] at hcut
    refine ⟨_, .edit (by omega) (by omega) hjoined hwoven, ?_⟩
    rw [textOf_append, textOf_append, splice_cons hseg hgone hle hle', hcut, hout]

theorem Joined.faultless (h : Joined seg row joined) (hseg : ∀ x ∈ seg, x.faults = [])
    (hrow : ∀ x ∈ row, x.faults = []) : ∀ x ∈ joined, x.faults = [] := by
  cases h with
  | apart => exact List.forall_mem_append.mpr ⟨hseg, hrow⟩
  | fused =>
    obtain ⟨hfront, -⟩ := List.forall_mem_append.mp hseg
    obtain ⟨-, hrest⟩ := List.forall_mem_cons.mp hrow
    exact List.forall_mem_append.mpr ⟨hfront, List.forall_mem_cons.mpr ⟨rfl, hrest⟩⟩

theorem Woven.faultless (h : Woven cursor rest es out) (hrest : ∀ x ∈ rest, x.faults = [])
    (hes : ∀ e ∈ es, Inserted (rowOf e)) : ∀ x ∈ out, x.faults = [] := by
  induction h with
  | done => exact hrest
  | edit _ _ hjoined _ ih =>
    obtain ⟨he, hes⟩ := List.forall_mem_cons.mp hes
    obtain ⟨hseg, hrest⟩ := List.forall_mem_append.mp hrest
    obtain ⟨-, hrest⟩ := List.forall_mem_append.mp hrest
    exact List.forall_mem_append.mpr ⟨hjoined.faultless hseg he.faultless, ih hrest hes⟩

/-- A name is no bracket, be it one or two. -/
theorem Joined.settleAll (h : Joined seg row joined) (stack : List String) :
    settleAll stack (tokensOf joined) = settleAll stack (tokensOf (seg ++ row)) := by
  cases h with
  | apart => rfl
  | @fused seg row w cs =>
    simp only [tokensOf_append, tokensOf_cons, tokensOf_nil, List.append_assoc]
    rw [Token.settleAll_append, Token.settleAll_append]
    rfl

/-- An edit at brackets: what it writes opens and closes the brackets that it takes out. -/
def Replaces (ss : List Shard) (e : Edit) : Prop :=
  ∀ front gone behind, Split ss e.start front (gone ++ behind) → Split ss e.stop (front ++ gone) behind →
    ∀ stack, settleAll stack (tokensOf (rowOf e)) = settleAll stack (tokensOf gone)

/-- An edit where no bracket is open, which takes none out. -/
def Outside (ss : List Shard) (e : Edit) : Prop :=
  ∀ front gone behind, Split ss e.start front (gone ++ behind) → Split ss e.stop (front ++ gone) behind →
    settleAll [] (tokensOf front) = some [] ∧ settleAll [] (tokensOf gone) = some []

/-- Where no bracket is open, the rows that are written may open and close brackets of their own. -/
theorem Woven.settleAll {own : Edit → List Token} (h : Woven cursor rest es out)
    (hrest : Split ss cursor done rest)
    (hes : ∀ e ∈ es, (own e = [] ∧ Replaces ss e) ∨ (own e = tokensOf (rowOf e) ∧ Outside ss e))
    {stack pending fin : List String} (hdone : Token.settleAll [] (tokensOf done) = some stack)
    (hall : Token.settleAll stack (tokensOf rest) = some [])
    (hown : Token.settleAll pending (es.flatMap own) = some fin) :
    Token.settleAll (stack ++ pending) (tokensOf out) = some fin := by
  induction h generalizing done stack pending with
  | done =>
    obtain rfl : pending = fin := Option.some.inj hown
    exact Token.settleAll_frame hall pending
  | @edit cursor seg gone rest joined out e es hseg hgone hjoined hout ih =>
    obtain ⟨he, hes⟩ := List.forall_mem_cons.mp hes
    rw [tokensOf_append, Token.settleAll_append] at hall
    obtain ⟨mid, hmid, hall⟩ := Option.bind_eq_some_iff.mp hall
    rw [tokensOf_append, Token.settleAll_append] at hall
    obtain ⟨next, hnext, hall⟩ := Option.bind_eq_some_iff.mp hall
    have hfront := hrest.advance hseg
    have hbehind := hfront.advance hgone
    have hdone' : Token.settleAll [] (tokensOf (done ++ seg)) = some mid := by
      rw [tokensOf_append, Token.settleAll_append, hdone, Option.bind_some, hmid]
    have hdone'' : Token.settleAll [] (tokensOf (done ++ seg ++ gone)) = some next := by
      rw [tokensOf_append, Token.settleAll_append, hdone', Option.bind_some, hnext]
    have hseg' : Token.settleAll (stack ++ pending) (tokensOf seg) = some (mid ++ pending) :=
      Token.settleAll_frame hmid pending
    rw [List.flatMap_cons, Token.settleAll_append] at hown
    obtain ⟨pending', hrow, hown⟩ := Option.bind_eq_some_iff.mp hown
    rw [tokensOf_append, Token.settleAll_append, hjoined.settleAll, tokensOf_append,
      Token.settleAll_append, hseg', Option.bind_some]
    rcases he with ⟨hnone, hreplaces⟩ | ⟨hsame, houtside⟩
    · obtain rfl : pending = pending' := by
        rw [hnone] at hrow
        exact Option.some.inj hrow
      have hrow' : Token.settleAll (mid ++ pending) (tokensOf (rowOf e)) = some (next ++ pending) := by
        rw [hreplaces _ _ _ hfront hbehind]
        exact Token.settleAll_frame hnext pending
      rw [show pieces e.text.toList = rowOf e from rfl, hrow', Option.bind_some]
      exact ih hbehind hes hdone'' hall hown
    · obtain ⟨hopen, hplain⟩ := houtside _ _ _ hfront hbehind
      obtain rfl : [] = mid := Option.some.inj (hopen.symm.trans hdone')
      obtain rfl : [] = next := Option.some.inj (hplain.symm.trans hnext)
      rw [show pieces e.text.toList = rowOf e from rfl, ← hsame, List.nil_append, hrow, Option.bind_some]
      exact ih hbehind hes hdone'' hall hown

/-- No name is written directly behind a name. -/
def Clear (ss : List Shard) (e : Edit) : Prop :=
  ∀ front behind w, Split ss e.start (front ++ [name w]) behind → ∀ cs row, rowOf e ≠ name cs :: row

theorem takeWhile_split {α : Type} {p : α → Bool} {xs ys : List α} (hx : ∀ x ∈ xs, p x)
    (hy : ∀ y ∈ ys, p y = false) : (xs ++ ys).takeWhile p = xs := by
  rw [List.takeWhile_append_of_pos hx]
  cases ys with
  | nil => simp
  | cons y ys => simp [hy y List.mem_cons_self]

theorem dropWhile_split {α : Type} {p : α → Bool} {xs ys : List α} (hx : ∀ x ∈ xs, p x)
    (hy : ∀ y ∈ ys, p y = false) : (xs ++ ys).dropWhile p = ys := by
  rw [List.dropWhile_append_of_pos hx]
  cases ys with
  | nil => rfl
  | cons y ys => simp [hy y List.mem_cons_self]

theorem mem_located {n m : Nat} {t : Token} (h : ∀ x ∈ xs, x.text ≠ []) (ht : (m, t) ∈ located n xs) :
    n ≤ m ∧ m < n + (textOf xs).length := by
  induction xs generalizing n with
  | nil => cases ht
  | cons x xs ih =>
    obtain ⟨hx, hxs⟩ := List.forall_mem_cons.mp h
    have hpos := List.length_pos_iff.mpr hx
    rw [textOf_cons, List.length_append]
    rcases List.mem_append.mp ht with ht | ht
    · obtain ⟨u, -, hu⟩ := List.mem_map.mp ht
      obtain ⟨rfl, -⟩ := Prod.mk.inj hu
      omega
    · obtain ⟨hle, hlt⟩ := ih hxs ht
      omega

theorem Sound.ne_nil (h : Sound ss) : ∀ x ∈ ss, x.text ≠ [] := by
  intro x hx
  obtain ⟨front, behind, rfl⟩ := List.append_of_mem hx
  exact h.stands.ne_nil

end Shard

open Shard

/-- The tokens of a Python text without their places. -/
def bareTokens (cs : List Char) : List Token := (tokenize .python cs).tokens.toList.map Token.bare

/-- The tokens that stand beside the edits and those that the edits write, in the order of the text. -/
def weave (ts : List Token) : List Edit → List Token
  | [] => ts.map Token.bare
  | e :: es => (ts.takeWhile (·.start < e.start)).map Token.bare ++ bareTokens e.text.toList
    ++ weave (ts.dropWhile (·.start < e.stop)) es

theorem bareTokens_eq (cs : List Char) : bareTokens cs = tokensOf (pieces cs) :=
  (passed_tokenize .python cs).tokens.symm

/-- What a text without faults becomes when edits are carried out at its tokens. -/
theorem woven_apply {source : List Char} {edits : List Edit}
    (h : ∀ x ∈ pieces source, x.faults = []) (hsited : ∀ e ∈ Edit.kept edits source, Sited (pieces source) e)
    (hmeet : (Edit.kept edits source).Pairwise Meeting) :
    Woven 0 (pieces source) (Edit.kept edits source) (pieces (Edit.apply edits source)) := by
  have hsound : Sound (pieces source) := .of_pieces h
  have hspaced : Edit.Spaced (textOf (pieces source)).length 0 (Edit.kept edits source) := by
    rw [textOf_pieces]
    exact Edit.spaced_kept
  have hstart : Split (pieces source) 0 [] (pieces source) := ⟨rfl, rfl⟩
  obtain ⟨out, hwoven, hout⟩ := pieces_splice hsound hsited hmeet hspaced hstart
  rw [textOf_pieces] at hout
  rwa [← hout] at hwoven

namespace Shard

variable {ss seg gone rest row joined done out : List Shard} {e : Edit} {es : List Edit} {cursor m : Nat}
  {ts us : List Token} {w : List Char}

theorem tokensOf_of_located {n : Nat} (h : located n ss = us.map fun t => (t.start, t.bare)) :
    tokensOf ss = us.map Token.bare := by
  rw [← @map_located ss n, h, List.map_map]
  rfl

/-- The tokens in front of an edit, those that it writes, and those behind it. -/
theorem weave_cons (hne : ∀ x ∈ seg ++ (gone ++ rest), x.text ≠ [])
    (hseg : cursor + (textOf seg).length = e.start) (hgone : e.start + (textOf gone).length = e.stop)
    (hts : located cursor (seg ++ (gone ++ rest)) = ts.map fun t => (t.start, t.bare)) :
    ∃ us : List Token, located e.stop rest = us.map (fun t => (t.start, t.bare)) ∧
      weave ts (e :: es) = tokensOf seg ++ tokensOf (rowOf e) ++ weave us es := by
  obtain ⟨hneSeg, hne⟩ := List.forall_mem_append.mp hne
  obtain ⟨hneGone, hneRest⟩ := List.forall_mem_append.mp hne
  rw [located_append, located_append, hseg, hgone] at hts
  obtain ⟨before, us, rfl, hbefore, hus⟩ := List.map_eq_append_iff.mp hts.symm
  obtain ⟨within, behind, rfl, hwithin, hbehind⟩ := List.map_eq_append_iff.mp hus
  -- the tokens of the three parts, by where they start
  have hlow : ∀ t ∈ before, t.start < e.start := by
    intro t ht
    have hmem := mem_located hneSeg (hbefore ▸ List.mem_map_of_mem ht)
    omega
  have hmid : ∀ t ∈ within, e.start ≤ t.start ∧ t.start < e.stop := by
    intro t ht
    have hmem := mem_located hneGone (hwithin ▸ List.mem_map_of_mem ht)
    omega
  have hhigh : ∀ t ∈ behind, e.stop ≤ t.start := by
    intro t ht
    exact (mem_located hneRest (hbehind ▸ List.mem_map_of_mem ht)).1
  have htake : (before ++ (within ++ behind)).takeWhile (·.start < e.start) = before := by
    refine takeWhile_split (fun t ht => decide_eq_true (hlow t ht)) fun t ht => ?_
    refine decide_eq_false (Nat.not_lt.mpr ?_)
    rcases List.mem_append.mp ht with ht | ht
    · exact (hmid t ht).1
    · have hle := hhigh t ht
      omega
  have hdrop : (before ++ (within ++ behind)).dropWhile (·.start < e.stop) = behind := by
    rw [← List.append_assoc]
    refine dropWhile_split (fun t ht => decide_eq_true ?_) fun t ht =>
      decide_eq_false (Nat.not_lt.mpr (hhigh t ht))
    rcases List.mem_append.mp ht with ht | ht
    · have hlt := hlow t ht
      omega
    · exact (hmid t ht).2
  refine ⟨behind, hbehind.symm, ?_⟩
  rw [weave, htake, hdrop, tokensOf_of_located hbefore.symm, bareTokens_eq]
  rfl

theorem Sound.ne_nil_behind (h : Sound ss) (hrest : Split ss cursor done rest) : ∀ x ∈ rest, x.text ≠ [] :=
  fun x hx => h.ne_nil x (hrest.eq ▸ List.mem_append_right done hx)

/-- If no name is written behind a name, the tokens are those beside the edits and those written. -/
theorem Woven.tokens (h : Woven cursor rest es out) (hs : Sound ss)
    (hrest : Split ss cursor done rest) (hclear : ∀ e ∈ es, Clear ss e)
    (hts : located cursor rest = ts.map fun t => (t.start, t.bare)) : tokensOf out = weave ts es := by
  induction h generalizing done ts with
  | done => exact tokensOf_of_located hts
  | @edit cursor seg gone rest joined out e es hseg hgone hjoined hout ih =>
    obtain ⟨hclear, hclears⟩ := List.forall_mem_cons.mp hclear
    have hfront := hrest.advance hseg
    obtain ⟨us, hus, hweave⟩ := weave_cons (hs.ne_nil_behind hrest) hseg hgone hts
    rw [hweave, tokensOf_append, ih (hfront.advance hgone) hclears hus]
    generalize hrow : pieces e.text.toList = row at hjoined
    rw [show rowOf e = row from hrow]
    cases hjoined with
    | apart => rw [tokensOf_append]
    | @fused front row w cs =>
      rw [← List.append_assoc] at hfront
      exact absurd hrow (hclear _ _ w hfront cs row)

/-- Two names that become one are one token less. -/
theorem Joined.fewer (h : Joined seg row joined) :
    joined = seg ++ row ∨ (tokensOf joined).length < (tokensOf seg ++ tokensOf row).length := by
  cases h with
  | apart => exact .inl rfl
  | @fused seg row w cs =>
    have hone (v : List Char) : (name v).tokens.length = 1 := rfl
    refine .inr ?_
    simp only [tokensOf_append, tokensOf_cons, tokensOf_nil, List.length_append, List.length_nil, hone]
    omega

theorem Joined.length_tokens_le (h : Joined seg row joined) :
    (tokensOf joined).length ≤ (tokensOf seg ++ tokensOf row).length := by
  rcases h.fewer with rfl | hlt
  · exact Nat.le_of_eq (congrArg List.length tokensOf_append)
  · exact Nat.le_of_lt hlt

/-- Weaving adds no token. -/
theorem Woven.length_tokens_le (h : Woven cursor rest es out) (hne : ∀ x ∈ rest, x.text ≠ [])
    (hts : located cursor rest = ts.map fun t => (t.start, t.bare)) :
    (tokensOf out).length ≤ (weave ts es).length := by
  induction h generalizing ts with
  | done => exact Nat.le_of_eq (congrArg List.length (tokensOf_of_located hts))
  | @edit cursor seg gone rest joined out e es hseg hgone hjoined hout ih =>
    obtain ⟨us, hus, hweave⟩ := weave_cons hne hseg hgone hts
    obtain ⟨-, hne⟩ := List.forall_mem_append.mp hne
    obtain ⟨-, hne⟩ := List.forall_mem_append.mp hne
    rw [hweave, tokensOf_append, List.length_append, List.length_append]
    exact Nat.add_le_add hjoined.length_tokens_le (ih hne hus)

theorem Woven.stop_le_start (h : Woven cursor rest es out) : ∀ e ∈ es, cursor ≤ e.start := by
  induction h with
  | done => exact fun e he => by cases he
  | edit hseg hgone hjoined hout ih =>
    refine List.forall_mem_cons.mpr ⟨by omega, fun e he => ?_⟩
    have hle := ih e he
    omega

/-- A name does not stand in front of another one. -/
theorem Sound.name_apart {cs : List Char} (h : Sound (seg ++ name w :: name cs :: rest)) (hw : IsName w)
    (hcs : IsName cs) (hr : EndsName (textOf rest)) : False := by
  have hfused : Stands .python true (name (w ++ cs)) (textOf rest) :=
    stands_name (isName_append hw hcs) hr
  have hstands := h.stands.pieces
  have htext : (name w).text ++ textOf (name cs :: rest) = (name (w ++ cs)).text ++ textOf rest := by
    simp [name]
  rw [htext, hfused.pieces] at hstands
  have hsame : w ++ cs = w := congrArg Shard.text (List.cons.inj hstands).1
  obtain ⟨c, u, rfl, -⟩ := hcs
  exact List.cons_ne_nil c u (List.append_right_eq_self.mp hsame)

/-- A name that stays, and behind which a name is written. -/
structure Glued (ss : List Shard) (es : List Edit) (m : Nat) (w : List Char) : Prop where
  isName : IsName w
  split : ∃ front behind, Split ss m front (name w :: behind)
  stays : ∀ e ∈ es, e.stop ≤ m ∨ m + w.length ≤ e.start
  written : ∃ e ∈ es, e.start = m + w.length
  named : ∀ e ∈ es, e.start = m + w.length → Inserted (rowOf e) ∧ ∃ cs row, rowOf e = name cs :: row

/-- Behind a name that stays, the first edit writes a name, and the two become one. -/
theorem Woven.length_tokens_lt (h : Woven cursor rest es out) (hs : Sound ss) (hout : Sound out)
    (hrest : Split ss cursor done rest) (hglued : Glued ss es m w) (hm : cursor ≤ m)
    (hts : located cursor rest = ts.map fun t => (t.start, t.bare)) :
    (tokensOf out).length < (weave ts es).length := by
  induction h generalizing done ts with
  | done =>
    obtain ⟨e, he, -⟩ := hglued.written
    cases he
  | @edit cursor seg gone rest joined out e es hseg hgone hjoined hwoven ih =>
    obtain ⟨us, hus, hweave⟩ := weave_cons (hs.ne_nil_behind hrest) hseg hgone hts
    have hfront := hrest.advance hseg
    have hbehind := hfront.advance hgone
    rw [hweave, tokensOf_append, List.length_append, List.length_append]
    obtain ⟨hstay, hstays⟩ := List.forall_mem_cons.mp hglued.stays
    obtain ⟨hnamed, hnameds⟩ := List.forall_mem_cons.mp hglued.named
    obtain ⟨front, behind, hplace⟩ := hglued.split
    obtain ⟨f, hf, hwritten⟩ := hglued.written
    have hpos : 0 < w.length := by
      obtain ⟨c, u, rfl, -⟩ := hglued.isName
      exact Nat.succ_pos _
    rcases hstay with hle | hle
    · -- the edit stands in front of the name
      have hne : f ≠ e := by
        rintro rfl
        omega
      have hmem : f ∈ es := (List.mem_cons.mp hf).resolve_left hne
      have hglued' : Glued ss es m w :=
        ⟨hglued.isName, hglued.split, hstays, ⟨f, hmem, hwritten⟩, hnameds⟩
      exact Nat.add_lt_add_of_le_of_lt hjoined.length_tokens_le (ih hout.back hbehind hglued' hle hus)
    · -- the edit is the first one behind the name
      have hstart : e.start = m + w.length := by
        rcases List.mem_cons.mp hf with rfl | hf
        · exact hwritten
        · have hlow := hwoven.stop_le_start f hf
          omega
      obtain ⟨hinserted, cs, row, hrow⟩ := hnamed hstart
      obtain ⟨mid, rfl, hmid, -⟩ := hrest.between hs hplace hm
      have hname : Split ss e.start (done ++ mid ++ [name w]) behind := by
        have hsplit : Split ss m (done ++ mid) ([name w] ++ behind) := hplace
        exact hsplit.advance (by simp [name, hstart])
      obtain ⟨hsame, -⟩ := hfront.unique hs hname
      rw [List.append_assoc] at hsame
      obtain rfl : seg = mid ++ [name w] := List.append_cancel_left hsame
      have hrest' := hwoven.length_tokens_le (hs.ne_nil_behind hbehind) hus
      rw [show pieces e.text.toList = name cs :: row from hrow] at hjoined
      rw [hrow] at hinserted ⊢
      refine Nat.add_lt_add_of_lt_of_le (hjoined.fewer.resolve_left ?_) hrest'
      rintro rfl
      cases hinserted with
      | name hcs ha hr hf =>
        rw [List.append_assoc, List.append_assoc] at hout
        have hends : EndsName (textOf (row ++ out)) := by
          rw [textOf_append]
          exact ha.endsName
        exact hout.name_apart hglued.isName hcs hends

end Shard

end Scratchpad
