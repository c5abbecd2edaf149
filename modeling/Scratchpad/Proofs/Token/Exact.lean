import Scratchpad.Proofs.Token.Front
import Scratchpad.Proofs.Token.Place
import Mathlib.Data.List.Chain
import Mathlib.Data.List.Induction

/-!
Everything that tokens and comments say about their places is exact: where they stand in characters
and in bytes, on which line and in which column, whether a line ended in front of them, and that a
script has nothing but blanks beside them.
-/
namespace Scratchpad

open Text (Position slice byteOffset byteSize)

namespace Text

variable {source : List Char} {a b : Nat}

theorem column_after (p : Position) (cs : List Char) (hp : p.column = 1) :
    (p.after cs).column = 1 + (cs.reverse.takeWhile (· ≠ '\n')).length := by
  induction cs using List.reverseRecOn with
  | nil => exact hp
  | append_singleton cs c ih =>
    have hstep : p.after (cs ++ [c]) = (p.after cs).advance c := Position.after_append p cs [c]
    rw [hstep, List.reverse_append, List.reverse_singleton, List.singleton_append]
    by_cases hc : c = '\n'
    · simp [Position.advance, hc]
    · simp only [Position.advance, hc, if_false, ih, List.takeWhile_cons, ne_eq, not_false_eq_true,
        decide_true, if_true, List.length_cons]
      omega

theorem byteSize_append (cs ds : List Char) : byteSize (cs ++ ds) = byteSize cs + byteSize ds := by
  induction cs with
  | nil => simp [byteSize]
  | cons c cs ih => simp [byteSize, ih, Nat.add_assoc]

theorem byteSize_pos {cs : List Char} (h : cs ≠ []) : 0 < byteSize cs := by
  cases cs with
  | nil => exact absurd rfl h
  | cons c cs => exact Nat.add_pos_left (Char.utf8Size_pos c) _

/-- Characters from `start` up to `stop`, at least one of them, and the bytes they take. -/
structure Spans (source : List Char) (start stop : Nat) : Prop where
  start_lt : start < stop
  within : stop ≤ source.length
  byte_lt : byteOffset source start < byteOffset source stop
  byte_within : byteOffset source stop ≤ byteSize source

theorem spans_of_lt (h : a < b) (hb : b ≤ source.length) : Spans source a b := by
  have hpos : 0 < byteSize (slice source a b) := by
    refine byteSize_pos (List.length_pos_iff.mp ?_)
    rw [length_slice hb]
    omega
  refine ⟨h, hb, ?_, ?_⟩
  · rw [byteOffset, byteOffset, ← take_append_slice (Nat.le_of_lt h), byteSize_append]
    omega
  · have hall := byteSize_append (source.take b) (source.drop b)
    rw [List.take_append_drop] at hall
    rw [byteOffset]
    omega

end Text

open Text (Spans)

/-- Whether a line ends in what stands between two tokens of Python. A backslash joins the line with
the next one if nothing but a line feed, or a carriage return and a line feed, is behind it, unless it
belongs to a comment. -/
def endsPythonLine : List Char → Bool
  | [] => false
  | '\n' :: _ => true
  | '\\' :: '\n' :: r => endsPythonLine r
  | '\\' :: '\r' :: '\n' :: r => endsPythonLine r
  | '#' :: r => r.contains '\n'
  | _ :: r => endsPythonLine r

def endsLine : Dialect → List Char → Bool
  | .script, gap => gap.contains '\n'
  | .python, gap => endsPythonLine gap

/-- Whether the end of a line is noted between two tokens of Python: whatever follows a backslash and a
carriage return is passed over with them. -/
def notesPythonLine : List Char → Bool
  | [] => false
  | '\n' :: _ => true
  | '\\' :: '\n' :: r => notesPythonLine r
  | '\\' :: '\r' :: _ :: r => notesPythonLine r
  | '#' :: r => r.contains '\n'
  | _ :: r => notesPythonLine r

def notesLine : Dialect → List Char → Bool
  | .script, gap => gap.contains '\n'
  | .python, gap => notesPythonLine gap

/-- Whether a line feed follows wherever a backslash and a carriage return are in front of another
character, up to the end of the line or a comment. -/
def isFed : List Char → Bool
  | [] => true
  | '\n' :: _ => true
  | '\\' :: '\n' :: r => isFed r
  | '\\' :: '\r' :: c :: r => c = '\n' && isFed r
  | '#' :: _ => true
  | _ :: r => isFed r

section

open Token

variable {d : Dialect} {f : Bool} {c : Char} {r more : List Char} {x : Lexeme}

theorem isBlank_iff : isBlank c ↔ c ∈ [' ', '\t', '\r', '\n', '\ufeff', '\u00a0'] := by
  simp [isBlank, or_assoc]

theorem notesPythonLine_of_isFed {gap : List Char} (h : isFed gap) :
    notesPythonLine gap = endsPythonLine gap := by
  fun_induction isFed gap <;> simp_all [notesPythonLine, endsPythonLine]

/-- A line end is noted where there is one, if no backslash stands in front of a lone carriage
return. -/
theorem notesLine_of_isFed {gap : List Char} (h : d = .python → isFed gap) :
    notesLine d gap = endsLine d gap := by
  cases d with
  | script => rfl
  | python => exact notesPythonLine_of_isFed (h rfl)

theorem notesPythonLine_returns {n : Nat} {t : List Char} (ht : ∀ i, t.head? = some i → i = '\n')
    (hm : more <+: List.replicate n '\r' ++ t) : notesPythonLine more = more.contains '\n' := by
  induction n generalizing more with
  | zero =>
    cases more with
    | nil => rfl
    | cons c more =>
      obtain ⟨u, hu⟩ := hm
      obtain rfl : c = '\n' := ht c (by rw [← List.nil_append t]; exact congrArg List.head? hu.symm)
      simp [notesPythonLine]
  | succ n ih =>
    cases more with
    | nil => rfl
    | cons c more =>
      obtain ⟨rfl, hmore⟩ := List.cons_prefix_cons.mp (show c :: more <+: '\r' :: _ from hm)
      have hskip : notesPythonLine ('\r' :: more) = notesPythonLine more := by simp [notesPythonLine]
      rw [hskip, ih hmore, List.contains_cons]
      rfl

/-- A line that ends in a blank or a comment counts, one that ends in a joint does not. -/
theorem notesLine_front (hx : Front f d c r x) (hkind : ∀ kind, x.piece ≠ .token kind)
    (hm : more <+: r.drop x.more) : notesLine d (c :: r.take x.more ++ more)
      = ((x.piece ≠ .joint && (c :: r.take x.more).contains '\n') || notesLine d more) := by
  cases hx with
  | token h _ =>
    obtain ⟨kind, hk⟩ := piece_tokenLexeme (d := d) (f := f) (c := c) (r := r)
    exact absurd hk (hkind kind)
  | slashes | block =>
    simp only [notesLine, List.contains_eq_any_beq, List.any_append, ne_eq, reduceCtorEq,
      not_false_eq_true, decide_true, Bool.true_and, ofExtent]
  | feed => simp [notesLine, notesPythonLine]
  | «return» => simp [notesLine, notesPythonLine]
  | lastReturn =>
    obtain rfl := List.prefix_nil.mp hm
    rfl
  | hash =>
    obtain ⟨hcomment, n, hdrop⟩ := lineComment_split r
    have hhead : ∀ i, (r.dropWhile (· ≠ '\n')).head? = some i → i = '\n' := by
      intro i hi
      have hnot := List.head?_dropWhile_not (· ≠ '\n') r
      rw [hi] at hnot
      simpa using hnot
    have hmore := notesPythonLine_returns hhead (hdrop ▸ hm)
    simp [notesLine, notesPythonLine, hmore, hcomment]
  | blank h =>
    cases d with
    | script => simp [notesLine]
    | python =>
      have hc := isBlank_iff.mp h
      simp only [List.mem_cons, List.not_mem_nil, or_false] at hc
      rcases hc with rfl | rfl | rfl | rfl | rfl | rfl <;> simp [notesLine, notesPythonLine]

end

/-- A comment is a piece of the source that is not empty, and knows on which line it stands. -/
structure Comment.Placed (source : List Char) (e : Comment) : Prop where
  start_lt : e.start < e.stop
  within : e.stop ≤ source.length
  text : e.text = .ofList (slice source e.start e.stop)
  line : e.line = 1 + (source.take e.start).count '\n'

namespace Lexed.Cut

open Token

variable {source cs rest r : List Char} {s : Cut} {d : Dialect} {x : Lexeme} {c : Char}

theorem Covers.slice (h : Covers source s (cs ++ rest)) :
    slice source s.offset (s.offset + cs.length) = cs := by
  rw [Text.slice, h.rest, Nat.add_sub_cancel_left, List.take_left]

/-- An offset at which a token or a comment stands. -/
def Taken (tokens : List Token) (comments : List Comment) (i : Nat) : Prop :=
  (∃ t ∈ tokens, t.start ≤ i ∧ i < t.stop) ∨ ∃ e ∈ comments, e.start ≤ i ∧ i < e.stop

/-- A cut in progress with its comments, which are placed as its tokens are and beside them. -/
structure Beside (d : Dialect) (source : List Char) (s : Cut) (rest : List Char) : Prop
    extends Covers source s rest where
  comment : ∀ e ∈ s.comments, e.Placed source ∧ e.stop ≤ s.offset
  falling : s.comments.Pairwise fun e e' => e'.stop ≤ e.start
  apart : ∀ t ∈ s.tokens.toList, ∀ e ∈ s.comments, t.stop ≤ e.start ∨ e.stop ≤ t.start
  blank : d = .script → ∀ i < s.offset, ∀ c, source[i]? = some c →
    Taken s.tokens.toList s.comments i ∨ isBlank c

theorem Beside.start (d : Dialect) (source : List Char) : Beside d source {} source :=
  ⟨.start source, nofun, .nil, nofun, fun _ _ h => absurd h (Nat.not_lt_zero _)⟩

theorem Beside.take {f : Bool} (hx : Front f d c r x) (h : Beside d source s (c :: r)) :
    Beside d source (s.take x (c :: r.take x.more)) (r.drop x.more) := by
  have hcovers : Covers source s (c :: r.take x.more ++ r.drop x.more) := by
    rw [List.cons_append, List.take_append_drop]
    exact h.toCovers
  have htake := hcovers.take (x := x) (List.cons_ne_nil _ _)
  have hslice := hcovers.slice
  have hwithin : s.offset + (c :: r.take x.more).length ≤ source.length := by
    have hw := htake.within
    unfold Cut.take at hw
    cases hp : x.piece <;> simp only [hp] at hw <;> exact hw
  generalize hcs : c :: r.take x.more = cs at htake hslice hwithin
  have hcomment : ∀ e ∈ s.comments, e.Placed source ∧ e.stop ≤ s.offset + cs.length :=
    fun e he => ⟨(h.comment e he).1, Nat.le_add_right_of_le (h.comment e he).2⟩
  have hpos : 0 < cs.length := by
    rw [← hcs]
    exact Nat.succ_pos _
  unfold Cut.take at htake ⊢
  cases hp : x.piece with
  | blank =>
    simp only [hp] at htake ⊢
    refine ⟨htake, hcomment, h.falling, h.apart, fun hd i hi c' hc' => ?_⟩
    obtain ⟨hblank, hmore⟩ := hx.of_blank hp
    by_cases hlt : i < s.offset
    · exact h.blank hd i hlt c' hc'
    · obtain rfl : i = s.offset := by
        rw [← hcs, hmore] at hi
        exact Nat.le_antisymm (Nat.le_of_lt_succ hi) (Nat.le_of_not_lt hlt)
      have hfirst : source[s.offset]? = some c := by
        rw [← Nat.add_zero s.offset, ← List.getElem?_drop, h.rest]
        rfl
      obtain rfl : c = c' := Option.some.inj (hfirst.symm.trans hc')
      exact .inr hblank
  | joint =>
    simp only [hp] at htake ⊢
    refine ⟨htake, hcomment, h.falling, h.apart, fun hd => ?_⟩
    rw [hx.of_joint hp] at hd
    cases hd
  | comment =>
    simp only [hp] at htake ⊢
    refine ⟨htake, List.forall_mem_cons.mpr ⟨⟨⟨?_, ?_, ?_, ?_⟩, ?_⟩, hcomment⟩,
      List.pairwise_cons.mpr ⟨fun e he => (h.comment e he).2, h.falling⟩, fun t ht => ?_,
      fun hd i hi c' hc' => ?_⟩
    · exact Nat.lt_add_of_pos_right hpos
    · exact hwithin
    · exact congrArg String.ofList hslice.symm
    · have hline := congrArg Position.line h.position
      rwa [Position.line_after] at hline
    · exact Nat.le_refl _
    · exact List.forall_mem_cons.mpr ⟨.inl (h.placed t ht).2, h.apart t ht⟩
    · by_cases hlt : i < s.offset
      · refine (h.blank hd i hlt c' hc').imp_left fun htaken => htaken.imp_right ?_
        rintro ⟨e, he, hin⟩
        exact ⟨e, List.mem_cons_of_mem _ he, hin⟩
      · exact .inl (.inr ⟨_, List.mem_cons_self, Nat.le_of_not_lt hlt, hi⟩)
  | token kind =>
    simp only [hp] at htake ⊢
    refine ⟨htake, hcomment, h.falling, fun t ht e he => ?_, fun hd i hi c' hc' => ?_⟩
    · rw [Array.toList_push] at ht
      rcases List.mem_append.mp ht with ht | ht
      · exact h.apart t ht e he
      · obtain rfl := List.mem_singleton.mp ht
        exact .inr (h.comment e he).2
    · rw [Array.toList_push]
      by_cases hlt : i < s.offset
      · refine (h.blank hd i hlt c' hc').imp_left fun htaken => htaken.imp_left ?_
        rintro ⟨t, ht, hin⟩
        exact ⟨t, List.mem_append_left _ ht, hin⟩
      · exact .inl (.inl ⟨_, List.mem_append_right _ List.mem_cons_self, Nat.le_of_not_lt hlt, hi⟩)

/-- A cut in progress whose tokens know whether a line ended in front of them. -/
structure Heralds (d : Dialect) (source : List Char) (s : Cut) (ahead : List Char) : Prop
    extends Covers source s ahead where
  first : ∀ t ∈ s.tokens.toList.head?, t.newlineBefore = true
  next : s.tokens.toList.IsChain fun t u =>
    u.newlineBefore = notesLine d (Text.slice source t.stop u.start)
  fresh : s.tokens.toList = [] → s.lineEnded = true
  gap : ∀ t ∈ s.tokens.toList.getLast?, ∀ more, more <+: ahead →
    notesLine d (Text.slice source t.stop s.offset ++ more) = (s.lineEnded || notesLine d more)

theorem Heralds.start (d : Dialect) (source : List Char) : Heralds d source {} source :=
  ⟨.start source, nofun, .nil, fun _ => rfl, nofun⟩

theorem offset_take : (s.take x cs).offset = s.offset + cs.length := by
  unfold Cut.take
  cases x.piece <;> rfl

theorem take_of_gap (s : Cut) (cs : List Char) (hx : ∀ kind, x.piece ≠ .token kind) :
    (s.take x cs).tokens = s.tokens ∧
      (s.take x cs).lineEnded = (s.lineEnded || (x.piece ≠ .joint && cs.contains '\n')) := by
  unfold Cut.take
  cases hp : x.piece with
  | token kind => exact absurd hp (hx kind)
  | blank | comment => exact ⟨rfl, rfl⟩
  | joint => exact ⟨rfl, (Bool.or_false _).symm⟩

theorem take_of_token (s : Cut) (cs : List Char) {kind : Kind} (hx : x.piece = .token kind) :
    ∃ t : Token, (s.take x cs).tokens = s.tokens.push t ∧ (s.take x cs).lineEnded = false ∧
      t.start = s.offset ∧ t.stop = s.offset + cs.length ∧ t.newlineBefore = s.lineEnded := by
  unfold Cut.take
  rw [hx]
  exact ⟨_, rfl, rfl, rfl, rfl, rfl⟩

theorem Heralds.take {f : Bool} (hx : Front f d c r x) (h : Heralds d source s (c :: r)) :
    Heralds d source (s.take x (c :: r.take x.more)) (r.drop x.more) := by
  have hsplit : c :: r.take x.more ++ r.drop x.more = c :: r := by
    rw [List.cons_append, List.take_append_drop]
  have hcovers : Covers source s (c :: r.take x.more ++ r.drop x.more) := hsplit.symm ▸ h.toCovers
  have htake := hcovers.take (x := x) (List.cons_ne_nil _ _)
  have hslice := hcovers.slice
  by_cases hkind : ∃ kind, x.piece = .token kind
  · obtain ⟨kind, hp⟩ := hkind
    obtain ⟨t, htokens, hended, hstart, hstop, hnew⟩ := take_of_token s (c :: r.take x.more) hp
    have hlast {u : Token} (hu : u ∈ s.tokens.toList.getLast?) :
        t.newlineBefore = notesLine d (Text.slice source u.stop t.start) := by
      have hgap := h.gap u hu [] (List.nil_prefix)
      have hnil : notesLine d [] = false := by cases d <;> rfl
      rw [List.append_nil, hnil, Bool.or_false] at hgap
      rw [hnew, hstart, hgap]
    refine ⟨htake, fun u hu => ?_, ?_, fun hnil => ?_, fun u hu more hmore => ?_⟩
    · rw [htokens, Array.toList_push] at hu
      cases hs : s.tokens.toList with
      | nil =>
        rw [hs] at hu
        obtain rfl : t = u := Option.some.inj hu
        rw [hnew, h.fresh hs]
      | cons u' us =>
        rw [hs] at hu
        exact h.first u (by rw [hs]; exact hu)
    · rw [htokens, Array.toList_push, List.isChain_append]
      refine ⟨h.next, .singleton _, fun u hu u' hu' => ?_⟩
      obtain rfl : t = u' := Option.some.inj hu'
      exact hlast hu
    · rw [htokens, Array.toList_push] at hnil
      exact absurd hnil (List.append_ne_nil_of_right_ne_nil _ (List.cons_ne_nil _ _))
    · rw [htokens, Array.toList_push, List.getLast?_concat] at hu
      obtain rfl : t = u := Option.some.inj hu
      rw [hended, offset_take, hstop, Text.slice, Nat.sub_self, List.take_zero, List.nil_append,
        Bool.false_or]
  · have hkind : ∀ kind, x.piece ≠ .token kind := fun kind hp => hkind ⟨kind, hp⟩
    obtain ⟨htokens, hended⟩ := take_of_gap s (c :: r.take x.more) hkind
    refine ⟨htake, htokens ▸ h.first, htokens ▸ h.next, fun hnil => ?_, fun t ht more hmore => ?_⟩
    · rw [hended, h.fresh (htokens ▸ hnil), Bool.true_or]
    · have ht : t ∈ s.tokens.toList.getLast? := htokens ▸ ht
      have hstop : t.stop ≤ s.offset := (h.placed t (List.mem_of_getLast? ht)).2
      have hgrown : Text.slice source t.stop (s.offset + (c :: r.take x.more).length)
          = Text.slice source t.stop s.offset ++ (c :: r.take x.more) := by
        rw [← Text.slice_append_slice hstop (Nat.le_add_right _ _), hslice]
      have hprefix : c :: r.take x.more ++ more <+: c :: r := by
        have hpre := (List.prefix_append_right_inj (c :: r.take x.more)).mpr hmore
        rwa [hsplit] at hpre
      rw [offset_take, hgrown, List.append_assoc, h.gap t ht _ hprefix,
        notesLine_front hx hkind hmore, hended, Bool.or_assoc]

end Lexed.Cut

theorem Lexed.beside_tokenize (d : Dialect) (source : List Char) :
    Cut.Beside d source (Cut.run d {} source) [] :=
  Cut.run_of_take (.start d source) fun _ _ _ _ => Cut.Beside.take

theorem Lexed.heralds_tokenize (d : Dialect) (source : List Char) :
    Cut.Heralds d source (Cut.run d {} source) [] :=
  Cut.run_of_take (.start d source) fun _ _ _ _ => Cut.Heralds.take

variable {d : Dialect} {source : List Char}

theorem Lexed.token_exact {t : Token} (ht : t ∈ (tokenize d source).tokens.toList) :
    Spans source t.start t.stop ∧ t.text = .ofList (slice source t.start t.stop) :=
  have hp := ((beside_tokenize d source).placed t ht).1
  ⟨Text.spans_of_lt hp.start_lt hp.within, hp.text⟩

theorem Lexed.comment_placed {e : Comment} (he : e ∈ (tokenize d source).comments) :
    e.Placed source :=
  ((beside_tokenize d source).comment e (List.mem_reverse.mp he)).1

theorem Lexed.comment_exact {e : Comment} (he : e ∈ (tokenize d source).comments) :
    Spans source e.start e.stop ∧ e.text = .ofList (slice source e.start e.stop) :=
  have hp := comment_placed he
  ⟨Text.spans_of_lt hp.start_lt hp.within, hp.text⟩

theorem Lexed.apart_of_mem {t : Token} {e : Comment} (ht : t ∈ (tokenize d source).tokens.toList)
    (he : e ∈ (tokenize d source).comments) : t.stop ≤ e.start ∨ e.stop ≤ t.start :=
  (beside_tokenize d source).apart t ht e (List.mem_reverse.mp he)

/-- What tokens and comments say about their places, character by character and byte by byte. -/
structure Lexed.Exact (d : Dialect) (source : List Char) (l : Lexed) : Prop where
  token : ∀ t ∈ l.tokens.toList, Spans source t.start t.stop ∧
    t.text = .ofList (slice source t.start t.stop)
  line : ∀ t ∈ l.tokens.toList, t.line = 1 + (source.take t.start).count '\n'
  column : ∀ t ∈ l.tokens.toList,
    t.column = 1 + ((source.take t.start).reverse.takeWhile (· ≠ '\n')).length
  comment : ∀ e ∈ l.comments, Spans source e.start e.stop ∧
    e.text = .ofList (slice source e.start e.stop)
  comment_line : ∀ e ∈ l.comments, e.line = 1 + (source.take e.start).count '\n'
  tokens_rise : l.tokens.toList.Pairwise fun t u => t.stop ≤ u.start
  comments_rise : l.comments.Pairwise fun e e' => e.stop ≤ e'.start
  apart : ∀ t ∈ l.tokens.toList, ∀ e ∈ l.comments, t.stop ≤ e.start ∨ e.stop ≤ t.start
  first : ∀ t ∈ l.tokens.toList.head?, t.newlineBefore = true
  /-- What is noted of the line ends between two tokens. -/
  next : l.tokens.toList.IsChain fun t u =>
    u.newlineBefore = notesLine d (slice source t.stop u.start)
  /-- It is what there is, except behind a backslash in front of a lone carriage return. -/
  next_of_fed : l.tokens.toList.IsChain fun t u =>
    (d = .python → isFed (slice source t.stop u.start)) →
      u.newlineBefore = endsLine d (slice source t.stop u.start)
  blank : d = .script → ∀ (i : Nat) (c : Char), source[i]? = some c →
    (∃ t ∈ l.tokens.toList, t.start ≤ i ∧ i < t.stop) ∨
      (∃ e ∈ l.comments, e.start ≤ i ∧ i < e.stop) ∨
        c ∈ [' ', '\t', '\r', '\n', '\ufeff', '\u00a0']

theorem tokenize_exact (d : Dialect) (source : List Char) : (tokenize d source).Exact d source := by
  have hbeside := Lexed.beside_tokenize d source
  have hheralds := Lexed.heralds_tokenize d source
  have hend : (Lexed.Cut.run d {} source).offset = source.length :=
    Nat.le_antisymm hbeside.within (List.drop_eq_nil_iff.mp hbeside.rest)
  exact {
    token := fun _ => Lexed.token_exact
    line := fun t ht => (hbeside.placed t ht).1.line
    column := fun t ht =>
      (congrArg Position.column (hbeside.placed t ht).1.position).trans (Text.column_after _ _ rfl)
    comment := fun _ => Lexed.comment_exact
    comment_line := fun e he => (Lexed.comment_placed he).line
    tokens_rise := hbeside.ordered
    comments_rise := List.pairwise_reverse.mpr hbeside.falling
    apart := fun _ ht _ he => Lexed.apart_of_mem ht he
    first := hheralds.first
    next := hheralds.next
    next_of_fed := hheralds.next.imp fun t u hnext hfed => hnext.trans (notesLine_of_isFed hfed)
    blank := fun hd i c hc => by
      have hi : i < source.length := (List.getElem?_eq_some_iff.mp hc).1
      rcases hbeside.blank hd i (hend ▸ hi) c hc with (htoken | ⟨e, he, hin⟩) | hblank
      · exact .inl htoken
      · exact .inr (.inl ⟨e, List.mem_reverse.mpr he, hin⟩)
      · exact .inr (.inr (isBlank_iff.mp hblank)) }

/-- Behind a backslash and a carriage return another backslash is passed over, and so the end of a line
is noted that goes on. -/
example : (tokenize .python "a\\\r\\\nb".toList).tokens.toList.map Token.newlineBefore = [true, true] ∧
    endsLine .python "\\\r\\\n".toList = false := by decide +kernel

end Scratchpad
