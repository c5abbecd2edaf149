import Scratchpad.Proofs.Python.Insert
import Scratchpad.Proofs.Python.Statement
import Scratchpad.Proofs.Token.Seat

/-!
Where a Python program is edited: at the edges of its tokens and, but for the head of a call of `print`,
outside brackets. What is written there can stand there.
-/
namespace Scratchpad.Python

open Instrument (Options)
open Shard (Inserted IsName Tail EndsNumber Seat Seated Split Sited Meeting Replaces Outside Clear Stands
  name number mark space textOf tokensOf rowOf)
open Text (Edit)
open Token (settleAll)

variable {o : Outline} {options : Options} {source : List Char} {front back : List Shard} {x s : Shard}
  {e f : Edit} {i j k : Nat}

/-- The word that a guard is opened behind, unless it takes the place of the word. -/
def guardWord? (o : Outline) (s : Statement) : Option Nat :=
  if s.startsLine && o.is s.first "for" then
    match find o (s.first + 1) s.last "in" with
    | none => none
    | some inWord =>
      match find o (inWord + 1) s.last ":" with
      | none => none
      | some colon => if colon = inWord + 1 then none else some inWord
  else if s.startsLine && o.is s.first "while" then
    match find o (s.first + 1) s.last ":" with
    | none => none
    | some colon =>
      if colon ≠ s.first + 1 && testFor o s.first colon = .inPlace then some s.first else none
  else none

/-- The words that guards are opened behind. -/
def guardWords (o : Outline) (options : Options) : List Nat :=
  if options.loopProtection then (statements o).filterMap (guardWord? o) else []

/-- The outline of a program in which nothing is wrong. -/
structure Clean (source : List Char) (o : Outline) : Prop where
  seated : Seated (pieces source) o
  settled : o.Settled
  source : o.source = source
  gap : ∀ j, j + 1 < o.size → o.newlineBefore (j + 1) → o.stop j ≠ o.start (j + 1)

theorem heralds_tokenize (source : List Char) :
    Lexed.Cut.Heralds .python source (Lexed.Cut.run .python {} source) [] :=
  Lexed.Cut.run_of_take (.start .python source) fun _ _ _ _ => Lexed.Cut.Heralds.take

theorem clean_of_check (h : check source = .ok ()) : Clean source (tokenize .python source).outline := by
  have hnone : (tokenize .python source).firstFault = none := by
    unfold check at h
    split at h
    · cases h
    · assumption
  have hfaults := (firstFault_eq_none.mp hnone).1
  refine ⟨seated_tokenize hfaults, Outline.settled_tokenize (Option.or_eq_none_iff.mp hnone).2, rfl,
    fun j hj hline heq => ?_⟩
  have hchain := List.isChain_iff_getElem.mp (heralds_tokenize source).next j hj
  have hj' : j < (tokenize .python source).outline.size := Nat.lt_of_succ_lt hj
  simp only [Outline.newlineBefore, Outline.stop, Outline.start, Array.getElem?_eq_getElem hj,
    Array.getElem?_eq_getElem hj', Option.map_some, Option.getD_some] at hline heq
  have hempty : notesLine .python (Text.slice source
      (tokenize .python source).outline.tokens[j].stop
      (tokenize .python source).outline.tokens[j + 1].start) = false := by
    rw [heq, Text.slice_self]
    rfl
  exact Bool.eq_false_iff.mp (hchain.trans hempty) hline

/-- A guard is opened behind the `in` of a loop over items, and behind the `while` of a loop that keeps
it. -/
theorem guardWord?_eq_some {s : Statement} : guardWord? o s = some j ↔ s.startsLine ∧
    (o.text s.first = "for" ∧ find o (s.first + 1) s.last "in" = some j ∧
        (∃ colon, find o (j + 1) s.last ":" = some colon ∧ colon ≠ j + 1) ∨
      o.text s.first = "while" ∧ s.first = j ∧
        ∃ colon, find o (s.first + 1) s.last ":" = some colon ∧ colon ≠ s.first + 1 ∧
          testFor o s.first colon = .inPlace) := by
  unfold guardWord? Outline.is
  cases s.startsLine with
  | false => simp
  | true =>
    by_cases hfor : o.text s.first = "for"
    · cases hin : find o (s.first + 1) s.last "in" with
      | none => simp [hfor]
      | some k =>
        simp only [hfor, BEq.rfl, Bool.and_self, if_true, Option.some.injEq]
        grind
    · by_cases hwhile : o.text s.first = "while"
      · cases hcolon : find o (s.first + 1) s.last ":" with
        | none => simp [hwhile]
        | some colon => simp [hwhile, and_comm]
      · simp [hfor, hwhile]

theorem exists_of_mem_guardWords (h : j ∈ guardWords o options) :
    options.loopProtection ∧ ∃ s ∈ statements o, guardWord? o s = some j := by
  unfold guardWords at h
  split at h
  · next hp => exact ⟨hp, List.mem_filterMap.mp h⟩
  · cases h

/-- A guard word is one of two names. -/
theorem text_of_guardWord (h : j ∈ guardWords o options) : o.text j = "in" ∨ o.text j = "while" := by
  obtain ⟨-, s, -, hs⟩ := exists_of_mem_guardWords h
  obtain ⟨-, ⟨-, hin, -⟩ | ⟨hwhile, rfl, -⟩⟩ := guardWord?_eq_some.mp hs
  · exact .inl (beq_iff_eq.mp (findOutside_eq_some hin).2)
  · exact .inr hwhile

theorem isToken_of_isWord (h : s.isWord) : s.isToken := by
  unfold Shard.isWord at h
  unfold Shard.isToken Shard.tokens
  cases hp : s.piece with
  | token kind => rfl
  | blank | joint | comment =>
    rw [hp] at h
    cases h

/-- No name and no number ends where a statement starts. -/
theorem Clean.apart (h : Clean source o) (hk : Seat (pieces source) o k front x back)
    (hb : Begins o k) (hs : front.getLast? = some s) (hw : s.isWord) : False := by
  obtain ⟨j, rfl, htouch, f, b, hj⟩ := h.seated.behind hk hs (isToken_of_isWord hw)
  rcases hb with hzero | hsemi | hline
  · cases hzero
  · have htext : s.text = [';'] := by
      rw [hj.text, show o.text j = ";" from hsemi]
      rfl
    obtain ⟨c, u, hcu, hlex⟩ := hj.stands h.seated.sound
    obtain ⟨rfl, rfl⟩ := List.cons.inj (htext.symm.trans hcu)
    have hpiece : Token.Piece.token .punct = s.piece := congrArg Token.Lexeme.piece hlex
    rw [Shard.isWord, ← hpiece] at hw
    cases hw
  · exact h.gap j hk.lt hline htouch

/-- A token with the text of a name is one. -/
theorem Clean.eq_name (h : Clean source o) (hk : Seat (pieces source) o k front x back) {w : String}
    (ht : o.text k = w) (hw : IsName w.toList) : x = name w.toList := by
  have htext : x.text = w.toList := by rw [hk.text, ht]
  have hpiece := (hk.stands h.seated.sound).piece_ident (htext ▸ hw)
  have hfaults : x.faults = [] := h.seated.sound.faultless x (hk.eq ▸ by simp)
  obtain ⟨piece, text, faults⟩ := x
  obtain rfl : text = w.toList := htext
  obtain rfl : piece = .token .ident := hpiece
  obtain rfl : faults = [] := hfaults
  rfl

theorem Clean.eq_name_of_guardWord (h : Clean source o) (hj : j ∈ guardWords o options)
    (hs : Seat (pieces source) o j front s back) : ∃ w, s = name w ∧ IsName w := by
  rcases text_of_guardWord hj with ht | ht
  · exact ⟨_, h.eq_name hs ht (by decide +kernel), by decide +kernel⟩
  · exact ⟨_, h.eq_name hs ht (by decide +kernel), by decide +kernel⟩

/-- No name and no number ends directly in front of a letter. -/
theorem Clean.lettered (h : Clean source o) (hk : Seat (pieces source) o k front x back) {w : String}
    {c : Char} (ht : o.text k = w) (hh : w.toList.head? = some c)
    (hc : Token.continuesName .python c ∧ Token.inNumber c) (hs : front.getLast? = some s)
    (hw : s.isWord) : False := by
  obtain ⟨front, rfl⟩ := List.getLast?_eq_some_iff.mp hs
  have hsound : Shard.Sound (front ++ s :: (x :: back)) := by
    have heq := hk.eq
    rw [List.append_assoc, List.singleton_append] at heq
    exact heq ▸ h.seated.sound
  have hhead : (textOf (x :: back)).head? = some c := by
    rw [Shard.textOf_cons, hk.text, ht, List.head?_append, hh]
    rfl
  rcases hsound.stands.ends hw hhead with hno | hno
  · exact Bool.eq_false_iff.mp hno hc.1
  · exact Bool.eq_false_iff.mp hno hc.2

/-- The call of the debug function in the place of a call of `print`. -/
def callEdit (o : Outline) (options : Options) (i : Nat) : Edit :=
  ⟨o.start i, o.stop (i + 1), .replace, options.debugHead (o.line i) (!o.is (i + 2) ")")⟩

theorem rowOf_callEdit (hf : IsName options.debugFunction.toList) : rowOf (callEdit o options i)
    = headRow options.debugFunction.toList (o.line i) (!o.is (i + 2) ")") := pieces_head hf

/-- What an edit of a program writes and where. -/
inductive Placing (o : Outline) (options : Options) : Edit → Prop where
  | opens {n k : Nat} {s : String} (ht : Opening n s) (hk : k < o.size) (he : o.Even 0 k)
      (hb : Begins o k ∨ ∃ j ∈ guardWords o options, k = j + 1) :
      Placing o options (.openAt (o.start k) s)
  | closes {n k : Nat} {s : String} (ht : Closing n s) (hk : k < o.size) (he : o.Even 0 (k + 1)) :
      Placing o options (.closeAt (o.stop k) s)
  | print {i : Nat} (h : isPrintHead o i) : Placing o options (callEdit o options i)
  | loop {n k : Nat} {s : String} (ht : Opening n s) (hk : k + 1 < o.size) (he : o.Even 0 k)
      (hw : o.text k = "while") : Placing o options ⟨o.start k, o.start (k + 1), .replace, s⟩

theorem tail_of_last {row : List Shard} {c : Char} (h : row.getLast? = some (mark c)) (r : List Char) :
    Tail row r := by
  intro s hs hword
  obtain rfl : mark c = s := Option.some.inj (h.symm.trans hs)
  cases hword

/-- Behind the bracket of a call without arguments, its head may end with a number. -/
theorem Clean.tail_print (h : Clean source o) (hf : IsName options.debugFunction.toList)
    (hi : Seat (pieces source) o (i + 1) front x back) :
    Tail (rowOf (callEdit o options i)) (textOf back) := by
  rw [rowOf_callEdit hf]
  cases hclose : o.is (i + 2) ")" with
  | false => exact tail_head _
  | true =>
    intro s hs hword c hc
    cases back with
    | nil => cases hc
    | cons y back =>
      have hsound : Shard.Sound ((front ++ [x]) ++ y :: back) := hi.split_stop.eq ▸ h.seated.sound
      by_cases htoken : y.isToken
      · obtain ⟨-, f, b, hseat⟩ := h.seated.ahead hi rfl htoken
        rw [Shard.textOf_cons, hseat.text, show o.text (i + 1 + 1) = ")" from beq_iff_eq.mp hclose] at hc
        obtain rfl : ')' = c := Option.some.inj hc
        rfl
      · obtain ⟨i, u, htext, hi⟩ := hsound.stands.gap (Bool.eq_false_iff.mpr htoken)
        rw [Shard.textOf_cons, htext] at hc
        obtain rfl : i = c := Option.some.inj hc
        exact hi

/-- The opening of a guard can become one name with the word in front of it, any other one cannot. -/
theorem Clean.glue_opens (h : Clean source o) (hk : Seat (pieces source) o k front x back)
    (hb : Begins o k ∨ ∃ j ∈ guardWords o options, k = j + 1) (hs : front.getLast? = some s) (hw : s.isWord) :
    ∃ j ∈ guardWords o options, k = j + 1 ∧ o.touchesNext j ∧ ∃ w, s = name w ∧ IsName w := by
  obtain ⟨j, rfl, htouch, f, b, hj⟩ := h.seated.behind hk hs (isToken_of_isWord hw)
  rcases hb with hb | ⟨j', hguard, heq⟩
  · exact absurd (h.apart hk hb hs hw) not_false
  · obtain rfl : j = j' := Nat.succ.inj heq
    refine ⟨j, hguard, rfl, ?_, h.eq_name_of_guardWord hguard hj⟩
    have hlt := hk.lt
    simp [Outline.touchesNext, hlt, htouch]

theorem lettered_print : Token.continuesName .python 'p' ∧ Token.inNumber 'p' := by decide +kernel

theorem lettered_while : Token.continuesName .python 'w' ∧ Token.inNumber 'w' := by decide +kernel

/-- Whatever an edit writes can stand where it does. -/
theorem Placing.sited (h : Clean source o) (hf : IsName options.debugFunction.toList)
    (he : Placing o options e) : Sited (pieces source) e := by
  cases he with
  | @opens n k s ht hk heven hb =>
    obtain ⟨front, x, back, hseat⟩ := h.seated.seat k hk
    refine ⟨ht.inserted, ⟨front, _, hseat.split_start, hseat.touches, fun y cs row hlast hword _ => ?_⟩,
      ⟨front, _, hseat.split_start, tail_of_last ht.last _⟩⟩
    obtain ⟨j, -, -, -, hname⟩ := h.glue_opens hseat hb hlast hword
    exact hname
  | @closes n k s ht hk heven =>
    obtain ⟨front, x, back, hseat⟩ := h.seated.seat k hk
    refine ⟨ht.inserted, ⟨_, back, hseat.split_stop, hseat.touches_behind, fun y cs row _ _ hrow => ?_⟩,
      ⟨_, back, hseat.split_stop, tail_of_last ht.last _⟩⟩
    obtain ⟨c, row', hmark⟩ := ht.first
    cases (List.cons.inj (hmark.symm.trans hrow)).1
  | @print i hi =>
    have hlt := lt_size_of_isPrintHead hi
    obtain ⟨front, x, back, hseat⟩ := h.seated.seat i (Nat.lt_of_succ_lt hlt)
    obtain ⟨front', x', back', hseat'⟩ := h.seated.seat (i + 1) hlt
    refine ⟨?_, ⟨front, _, hseat.split_start, hseat.touches, fun y cs row hlast hword _ => ?_⟩,
      ⟨_, back', hseat'.split_stop, h.tail_print hf hseat'⟩⟩
    · rw [rowOf_callEdit hf]
      exact inserted_head hf
    · exact absurd (h.lettered hseat (text_of_isPrintHead hi).1 rfl lettered_print hlast hword) not_false
  | @loop n k s ht hk heven hw =>
    obtain ⟨front, x, back, hseat⟩ := h.seated.seat k (Nat.lt_of_succ_lt hk)
    obtain ⟨front', x', back', hseat'⟩ := h.seated.seat (k + 1) hk
    refine ⟨ht.inserted, ⟨front, _, hseat.split_start, hseat.touches, fun y cs row hlast hword _ => ?_⟩,
      ⟨front', _, hseat'.split_start, tail_of_last ht.last _⟩⟩
    exact absurd (h.lettered hseat hw rfl lettered_while hlast hword) not_false

/-- No name is written behind a name if no guard word touches what stands behind it. -/
theorem Placing.clear (h : Clean source o) (hgap : ∀ j ∈ guardWords o options, o.touchesNext j = false)
    (he : Placing o options e) : Clear (pieces source) e := by
  intro f b w hsplit cs row hrow
  have hlast : (f ++ [name w]).getLast? = some (name w) := List.getLast?_concat
  cases he with
  | @opens n k s ht hk heven hb =>
    obtain ⟨front, x, back, hseat⟩ := h.seated.seat k hk
    obtain ⟨rfl, -⟩ := hseat.split_start.unique h.seated.sound hsplit
    obtain ⟨j, hj, -, htouch, -⟩ := h.glue_opens hseat hb hlast rfl
    exact Bool.eq_false_iff.mp (hgap j hj) htouch
  | @closes n k s ht hk heven =>
    obtain ⟨c, row', hmark⟩ := ht.first
    cases (List.cons.inj (hmark.symm.trans hrow)).1
  | @print i hi =>
    obtain ⟨front, x, back, hseat⟩ := h.seated.seat i (Nat.lt_of_succ_lt (lt_size_of_isPrintHead hi))
    obtain ⟨rfl, -⟩ := hseat.split_start.unique h.seated.sound hsplit
    exact h.lettered hseat (text_of_isPrintHead hi).1 rfl lettered_print hlast rfl
  | @loop n k s ht hk heven hw =>
    obtain ⟨front, x, back, hseat⟩ := h.seated.seat k (Nat.lt_of_succ_lt hk)
    obtain ⟨rfl, -⟩ := hseat.split_start.unique h.seated.sound hsplit
    exact h.lettered hseat hw rfl lettered_while hlast rfl

/-- Where a token starts that another one ends at, it is the next one. -/
theorem Clean.eq_succ (h : Clean source o) (hk : k < o.size) (hi : i < o.size)
    (heq : o.start k = o.stop i) : k = i + 1 := by
  have hstart := h.seated.placed.start_lt_stop hi
  rcases Nat.lt_trichotomy k (i + 1) with hlt | rfl | hlt
  · have hle := h.seated.placed.start_le_start (Nat.le_of_lt_succ hlt) hi
    omega
  · rfl
  · have hnext : i + 1 < o.size := Nat.lt_trans hlt hk
    have hle : o.stop i ≤ o.start (i + 1) := h.seated.placed.stop_le_start (Nat.lt_succ_self i) hnext
    have hpos := h.seated.placed.start_lt_stop hnext
    have hle' := h.seated.placed.stop_le_start hlt hk
    omega

/-- What the one edit writes can stand in front of what another one writes. -/
theorem Placing.meeting (h : Clean source o) (hf : IsName options.debugFunction.toList)
    (he : Placing o options e) (hg : Placing o options f) : Meeting e f := by
  intro hmeet
  cases he with
  | opens ht hk heven hb => exact tail_of_last ht.last _
  | closes ht hk heven => exact tail_of_last ht.last _
  | loop ht hk heven hw => exact tail_of_last ht.last _
  | @print i hi =>
    have hlt := lt_size_of_isPrintHead hi
    rw [rowOf_callEdit hf]
    cases hclose : o.is (i + 2) ")" with
    | false => exact tail_head _
    | true =>
      have htext : o.text (i + 2) = ")" := beq_iff_eq.mp hclose
      have hnext : ∀ k < o.size, f.start = o.start k → o.Even 0 k → False := by
        intro k hk hstart heven
        obtain rfl : k = i + 2 := h.eq_succ hk hlt (hstart.symm.trans hmeet)
        have hrest := h.settled.all.behind heven (Nat.le_of_lt hk)
        have hcloser := h.settled.not_isCloser hrest hk
        rw [htext] at hcloser
        cases hcloser
      cases hg with
      | @opens n k s ht hk heven hb => exact absurd (hnext k hk rfl heven) not_false
      | @loop n k s ht hk heven hw => exact absurd (hnext k (Nat.lt_of_succ_lt hk) rfl heven) not_false
      | @print j hj =>
        obtain rfl : j = i + 2 :=
          h.eq_succ (Nat.lt_of_succ_lt (lt_size_of_isPrintHead hj)) hlt hmeet
        exact absurd ((text_of_isPrintHead hj).1.symm.trans htext) (by decide)
      | @closes n k s ht hk heven =>
        intro x _ _ c hc
        obtain ⟨i, t, hbegin, -, hname | hends⟩ := ht.inserted.begins
        · obtain ⟨c', row', hmark⟩ := ht.first
          obtain ⟨cs, rest, hname⟩ := hname
          cases (List.cons.inj (hmark.symm.trans hname)).1
        · rw [textOf_pieces] at hbegin
          rw [show (Edit.closeAt (o.stop k) s).text.toList = i :: t from hbegin] at hc
          obtain rfl : i = c := Option.some.inj hc
          exact Token.not_inNumber_of_endsWord hends

/-- The head of a call of the debug function opens the bracket that it takes out. -/
theorem Clean.replaces_print (h : Clean source o) (hf : IsName options.debugFunction.toList)
    (hi : isPrintHead o i) : Replaces (pieces source) (callEdit o options i) := by
  intro front gone behind hstart hstop stack
  have hlt := lt_size_of_isPrintHead hi
  obtain ⟨hword, hopen⟩ := text_of_isPrintHead hi
  obtain ⟨f, x, b, hseat⟩ := h.seated.seat i (Nat.lt_of_succ_lt hlt)
  obtain ⟨f', x', b', hseat'⟩ := h.seated.seat (i + 1) hlt
  obtain ⟨rfl, -⟩ := hseat.split_start.unique h.seated.sound hstart
  obtain ⟨hfront, -⟩ := hseat'.split_stop.unique h.seated.sound hstop
  have hgone : tokensOf gone = (o.between i (i + 2)).map Token.bare :=
    hseat.tokens_segment hseat' hfront (Nat.le_succ i)
  have hplain : o.Even i (i + 1) := even_word (Nat.lt_of_succ_lt hlt) hword (by decide)
  have hopener : Token.isOpener o.tokens[i + 1].text := by
    rw [← Outline.text_eq hlt, hopen]
    rfl
  have hkind := h.settled.punct _ (Array.getElem_mem_toList hlt) (.inl hopener)
  rw [rowOf_callEdit hf, hgone, settleAll_bare,
    ← Outline.between_append (Nat.le_succ i) (Nat.le_succ (i + 1)), Token.settleAll_append,
    hplain.settleAll, Option.bind_some, Outline.between_succ hlt, Token.settleAll_cons,
    Token.settle_opener hkind hopener, ← Outline.text_eq hlt, hopen]
  cases o.is (i + 2) ")" <;> rfl

/-- Everything else is written where no bracket is open. -/
theorem Placing.outside (h : Clean source o) (he : Placing o options e)
    (hp : ∀ i, isPrintHead o i → e ≠ callEdit o options i) : Outside (pieces source) e := by
  intro front gone behind hstart hstop
  have hnone (hsame : e.stop = e.start) : settleAll [] (tokensOf gone) = some [] := by
    obtain ⟨hfront, -⟩ := hstart.unique h.seated.sound (hsame ▸ hstop)
    obtain rfl : gone = [] := List.append_right_eq_self.mp hfront.symm
    rfl
  cases he with
  | @opens n k s ht hk heven hb =>
    obtain ⟨f, x, b, hseat⟩ := h.seated.seat k hk
    obtain ⟨rfl, -⟩ := hseat.split_start.unique h.seated.sound hstart
    exact ⟨(hseat.settle []).trans heven.settles, hnone rfl⟩
  | @closes n k s ht hk heven =>
    obtain ⟨f, x, b, hseat⟩ := h.seated.seat k hk
    obtain ⟨rfl, -⟩ := hseat.split_stop.unique h.seated.sound hstart
    exact ⟨(hseat.settle_through []).trans heven.settles, hnone rfl⟩
  | @print i hi => exact absurd rfl (hp i hi)
  | @loop n k s ht hk heven hw =>
    have hlt : k < o.size := Nat.lt_of_succ_lt hk
    obtain ⟨f, x, b, hseat⟩ := h.seated.seat k hlt
    obtain ⟨f', x', b', hseat'⟩ := h.seated.seat (k + 1) hk
    obtain ⟨rfl, -⟩ := hseat.split_start.unique h.seated.sound hstart
    obtain ⟨rfl, -⟩ := hseat'.split_start.unique h.seated.sound hstop
    have hopen := (hseat.settle []).trans heven.settles
    have hword : o.Even k (k + 1) := even_word hlt hw (by decide)
    refine ⟨hopen, ?_⟩
    have hthrough := (hseat'.settle []).trans (heven.append hword).settles
    rwa [Shard.tokensOf_append, Token.settleAll_append, hopen, Option.bind_some] at hthrough

end Scratchpad.Python
