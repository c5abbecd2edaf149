import Scratchpad.Proofs.Python.Check
import Scratchpad.Python.Marker

/-!
A Python program in which nothing is wrong is none in which something is wrong when the values that its
markers ask for are reported. A comment takes the rest of its line, so no two markers ask for the value
of one statement.
-/
namespace Scratchpad

open Token (Front lineComment)

variable {source r : List Char} {c : Char} {e e' : Comment}

/-- A comment from its mark to the end of its line. -/
def Comment.Lined (source : List Char) (e : Comment) : Prop :=
  ∃ r, source.drop e.start = '#' :: r ∧ e.stop = e.start + (lineComment r + 1)

namespace Lexed.Cut

variable {s : Cut} {x : Token.Lexeme}

/-- A cut in progress of a Python text, with its comments. -/
structure Lining (source : List Char) (s : Cut) (rest : List Char) : Prop
    extends Beside .python source s rest where
  lined : ∀ e ∈ s.comments, e.Lined source

theorem Lining.take {f : Bool} (hx : Front f .python c r x) (h : Lining source s (c :: r)) :
    Lining source (s.take x (c :: r.take x.more)) (r.drop x.more) := by
  refine ⟨h.toBeside.take hx, ?_⟩
  have hlined := h.lined
  have hrest := h.rest
  unfold Cut.take
  cases hp : x.piece with
  | blank | joint | token => exact hlined
  | comment =>
    refine List.forall_mem_cons.mpr ⟨?_, hlined⟩
    cases hx with
    | hash =>
      refine ⟨r, hrest, ?_⟩
      dsimp only
      rw [List.length_cons, List.length_take_of_le Token.lineComment_le]
    | token hb hg =>
      obtain ⟨kind, hk⟩ := @Token.piece_tokenLexeme .python f c r
      cases hk.symm.trans hp
    | _ => cases hp

end Lexed.Cut

theorem lining_tokenize (source : List Char) :
    Lexed.Cut.Lining source (Lexed.Cut.run .python {} source) [] := by
  refine Lexed.Cut.run_of_take (P := Lexed.Cut.Lining source) ⟨.start .python source, ?_⟩
    fun _ _ _ _ => Lexed.Cut.Lining.take
  exact fun e he => by cases he

/-- A line ends between two comments. -/
theorem Comment.line_lt (he : e.Placed source) (he' : e'.Placed source) (hl : e.Lined source)
    (hl' : e'.Lined source) (hle : e.stop ≤ e'.start) : e.line < e'.line := by
  obtain ⟨r, hr, hstop⟩ := hl
  obtain ⟨r', hr', -⟩ := hl'
  have hbehind : source.drop e.stop = Text.slice source e.stop e'.start ++ '#' :: r' := by
    rw [← Text.slice_append_drop hle, hr']
  have hsplit : r = r.take (lineComment r) ++ (Text.slice source e.stop e'.start ++ '#' :: r') := by
    have hdrop : r.drop (lineComment r) = source.drop e.stop := by
      rw [hstop, ← List.drop_drop, hr, List.drop_succ_cons]
    rw [← hbehind, ← hdrop, List.take_append_drop]
  have hfeed : '\n' ∈ Text.slice source e.stop e'.start := by
    refine Shard.mem_of_comment (c := '#') (u := r.take (lineComment r)) (b := r') (by decide) ?_
    rw [← hsplit, List.length_take_of_le Token.lineComment_le]
  have hcount := List.count_pos_iff.mpr hfeed
  have hstart := he.start_lt
  rw [he.line, he'.line, ← Text.take_append_slice (Nat.le_trans (Nat.le_of_lt hstart) hle),
    ← Text.slice_append_slice (Nat.le_of_lt hstart) hle, List.count_append, List.count_append]
  omega

theorem rising_comments (source : List Char) :
    (tokenize .python source).comments.Pairwise fun e e' => e.line < e'.line := by
  have hlining := lining_tokenize source
  refine List.pairwise_reverse.mpr (hlining.falling.imp_of_mem fun {e e'} he he' hle => ?_)
  exact Comment.line_lt (hlining.comment e' he').1 (hlining.comment e he).1 (hlining.lined e' he')
    (hlining.lined e he) hle

namespace Shard

variable {p : List Char → Prop} {xs ys row : List Shard}

/-- What a text has up to the end of a token can be written in front of a closing bracket. -/
theorem Reads.segment (h : Sound (xs ++ ys)) (ht : Touches xs ys)
    (hr : Reads p (Shard.mark ')' :: row)) : Reads p (xs ++ Shard.mark ')' :: row) := by
  intro r hp
  have hfollows : Follows xs [] ys (textOf (Shard.mark ')' :: row) ++ r) := by
    refine ⟨⟨')', textOf row ++ r, rfl, by decide, fun _ _ _ _ => by decide +kernel⟩, ?_⟩
    rwa [List.append_nil]
  have hsound : Sound (xs ++ [] ++ ys) := by rwa [List.append_nil]
  have hcut := hsound.segment (.inr hfollows)
  rw [textOf_nil, List.nil_append] at hcut
  rw [textOf_append, List.append_assoc, hcut, hr r hp, List.append_assoc]

/-- The text between two places. -/
theorem Split.slice {ss front mid back : List Shard} {n m : Nat} (hn : Split ss n front (mid ++ back))
    (hm : Split ss m (front ++ mid) back) : Text.slice (textOf ss) n m = textOf mid := by
  have hlength := hm.length
  rw [textOf_append, List.length_append, hn.length] at hlength
  rw [Text.slice, hn.eq, textOf_append, textOf_append, List.drop_left' hn.length,
    List.take_left' (by omega)]

end Shard

namespace Python

open Instrument (Options debugClose)
open Shard (Inserted IsName Reads Tail Sound Touches name mark space number textOf tokensOf reads_nil
  beginsApart_mark)
open Text (Edit)
open Token (settleAll)

variable {o : Outline} {options : Options} {source : List Char} {s : Statement} {c : Comment}
  {stmts : List Statement} {line : Nat}

theorem settleAll_segment {xs : List Shard} (h : settleAll [] (tokensOf xs) = some [])
    (stack : List String) : settleAll stack (tokensOf xs) = some stack := by
  have hframe := Token.settleAll_frame h stack
  rwa [List.nil_append] at hframe

/-- The report of names, in brackets of their own if there are several. -/
def namesRow (f : List Char) (line : Nat) (names : List Shard) : List Shard :=
  mark ';' :: space :: name f :: mark '(' :: number line :: mark ',' :: space :: (names ++ [mark ')'])

theorem closing_call (hf : IsName options.debugFunction.toList) {names : List Shard} {reported : String}
    (hn : ∀ {p}, Reads p (names ++ [mark ')'])) (hfaults : ∀ x ∈ names, x.faults = [])
    (hs : ∀ stack, settleAll stack (tokensOf names) = some stack)
    (ht : reported.toList = textOf names) : Closing 0 ("; " ++ options.debugCall line reported) := by
  have hinserted : Inserted (namesRow options.debugFunction.toList line names) := by
    refine .mark (by decide) ?_ ?_
    · exact hn.space.mark (by decide) |>.number line (beginsApart_mark (by decide))
        |>.mark (by decide) |>.name hf (beginsApart_mark (by decide)) |>.space
    · have hall : ∀ x ∈ names ++ [mark ')'], x.faults = [] :=
        List.forall_mem_append.mpr ⟨hfaults, List.forall_mem_singleton.mpr rfl⟩
      simpa [space, name, number, mark] using hall
  refine .of_row hinserted ?_ (fun stack => ?_) ?_
  · simp [List.getLast?_cons]
  · have hfront : settleAll stack (tokensOf (namesRow options.debugFunction.toList line names))
        = settleAll ("(" :: stack) (tokensOf (names ++ [mark ')'])) := rfl
    refine hfront.trans ?_
    rw [Shard.tokensOf_append, Token.settleAll_append, hs, Option.bind_some]
    rfl
  · simp [Options.debugCall, mark, space, name, number]
    rw [show (toString reported).toList = textOf names from ht]
    rfl

theorem closing_names (hf : IsName options.debugFunction.toList) {xs ys : List Shard}
    (h : Sound (xs ++ ys)) (ht : Touches xs ys) (hs : settleAll [] (tokensOf xs) = some []) {b : Bool}
    {reported : String} (hr : reported.toList = if b then '(' :: (textOf xs ++ [')']) else textOf xs) :
    Closing 0 ("; " ++ options.debugCall line reported) := by
  have hfaults : ∀ x ∈ xs, x.faults = [] := fun x hx => h.faultless x (List.mem_append_left ys hx)
  have hreads {p : List Char → Prop} {row : List Shard} (hrow : Reads p (mark ')' :: row)) :
      Reads p (xs ++ mark ')' :: row) := hrow.segment h ht
  cases b with
  | false =>
    refine closing_call hf (hreads (reads_nil.mark (by decide))) hfaults (settleAll_segment hs) ?_
    simpa using hr
  | true =>
    refine @closing_call _ _ hf (mark '(' :: (xs ++ [mark ')'])) _ ?_ ?_ (fun stack => ?_) ?_
    · intro p
      have hinner : Reads p (xs ++ [mark ')', mark ')']) :=
        hreads (reads_nil.mark (by decide) |>.mark (by decide))
      simpa using hinner.mark (by decide : '(' ∈ ['(', ')', ',', ';'])
    · simpa [mark] using fun x hx => hx.elim (hfaults x) fun heq => heq ▸ rfl
    · have hopen : settleAll stack (tokensOf (mark '(' :: (xs ++ [mark ')'])))
          = settleAll ("(" :: stack) (tokensOf (xs ++ [mark ')'])) := rfl
      rw [hopen, Shard.tokensOf_append, Token.settleAll_append, settleAll_segment hs, Option.bind_some]
      rfl
    · simpa [mark] using hr

/-- An edit at the end of a statement that leaves no bracket open. -/
theorem fence_single (h : Clean source o) (hs : s ∈ statements o) {text : String} (ht : Closing 0 text) :
    Fence o options s [.closeAt (o.stop s.last) text] := by
  have hwhole := whole_statements h.settled s hs
  have hspot : Spot o s s.first s.last := ⟨Nat.le_refl _, hwhole.le, Nat.le_refl _, hwhole.within⟩
  obtain ⟨-, hlt, -⟩ := hspot.starts h.seated.placed
  refine ⟨?_, ?_, List.pairwise_singleton _ _, ?_, ?_, fun stack => ?_⟩
  · exact List.forall_mem_singleton.mpr (.closes ht hwhole.within hwhole.all)
  · exact List.forall_mem_singleton.mpr fun i _ heq => by cases congrArg Edit.kind heq
  · exact List.forall_mem_singleton.mpr ⟨Nat.le_of_lt hlt, fun _ => hlt⟩
  · exact List.forall_mem_singleton.mpr ⟨Nat.le_refl _, fun hk => absurd rfl hk⟩
  · rw [bracketsOf, List.flatMap_singleton, tokensOf_rowOf]
    exact ht.settles stack

/-- The end of what is assigned to, and the operator behind it, stand outside brackets. -/
theorem even_targets (h : Clean source o) (hs : Whole o s) {op : Nat}
    (hop : findAssignment o s.first s.last = some op) :
    o.Even 0 ((find o s.first op ":").getD op) ∧ s.first ≤ (find o s.first op ":").getD op ∧
      (find o s.first op ":").getD op ≤ s.last := by
  obtain ⟨heven, hle, hle'⟩ := findAssignment_eq_some h.settled hs.front hs.within hop
  cases hcolon : find o s.first op ":" with
  | none => exact ⟨heven, hle, hle'⟩
  | some colon =>
    have hwithin := hs.within
    obtain ⟨heven', hlow, hhigh, -⟩ := find_eq_some h.settled hs.front (by omega) hcolon
    exact ⟨heven', hlow, Nat.le_trans hhigh hle'⟩

/-- An even stretch of tokens as a segment of the text. -/
theorem Clean.segment (h : Clean source o) {a b : Nat} (hle : a ≤ b) (hb : b < o.size)
    (he : o.Even a (b + 1)) : ∃ xs ys, Sound (xs ++ ys) ∧ Touches xs ys ∧
      settleAll [] (tokensOf xs) = some [] ∧
      textOf xs = Text.slice o.source (o.start a) (o.stop b) := by
  obtain ⟨front, x, back, hfirst⟩ := h.seated.seat a (Nat.lt_of_le_of_lt hle hb)
  obtain ⟨front', x', back', hlast⟩ := h.seated.seat b hb
  have horder : o.start a ≤ o.stop b :=
    Nat.le_trans (h.seated.placed.start_le_start hle hb) (Nat.le_of_lt (h.seated.placed.start_lt_stop hb))
  obtain ⟨xs, hfront, hback, -⟩ := hfirst.split_start.between h.seated.sound hlast.split_stop horder
  have hsound : Sound (xs ++ back') := by
    rw [← hback]
    exact (hfirst.eq ▸ h.seated.sound).back
  refine ⟨xs, back', hsound, ?_, ?_, ?_⟩
  · rcases List.eq_nil_or_concat xs with rfl | ⟨ys, y, rfl⟩
    · rw [List.nil_append] at hback
      exact .inr ⟨x, by rw [← hback]; rfl, hfirst.isToken⟩
    · rw [List.concat_eq_append, ← List.append_assoc] at hfront
      obtain ⟨-, hsame⟩ := List.append_inj' hfront rfl
      obtain rfl := (List.cons.inj hsame).1
      exact .inl ⟨x', by simp, hlast.isToken⟩
  · rw [hfirst.tokens_segment hlast hfront hle, settleAll_bare, he.settles]
  · have hstart := hfirst.split_start
    have hstop := hlast.split_stop
    rw [hback] at hstart
    rw [hfront] at hstop
    rw [h.source, ← textOf_pieces source, hstart.slice hstop]

theorem fence_assignment (h : Clean source o) (hf : IsName options.debugFunction.toList)
    (hs : s ∈ statements o) {op : Nat} (hop : findAssignment o s.first s.last = some op) :
    Fence o options s (assignmentEdits o options line s op) := by
  have hwhole := whole_statements h.settled s hs
  have hwithin := hwhole.within
  obtain ⟨heven, hle, hlast⟩ := even_targets h hwhole hop
  unfold assignmentEdits
  extract_lets targetsEnd plain targets names reported
  have hle : s.first ≤ targetsEnd := hle
  have hlast : targetsEnd ≤ s.last := hlast
  split
  · exact .nil
  · next hne =>
    split
    · exact .nil
    · have hpred : targetsEnd - 1 + 1 = targetsEnd := by omega
      have hstretch : o.Even s.first (targetsEnd - 1 + 1) := by
        rw [hpred]
        exact heven.behind hwhole.front hle
      obtain ⟨xs, ys, hsound, htouches, hsettles, htext⟩ := h.segment (by omega) (by omega) hstretch
      refine fence_single h hs (closing_names hf hsound htouches hsettles (b := targets.contains ',') ?_)
      have hnames : names.toList = textOf xs := by rw [htext, String.toList_ofList]
      cases hmany : targets.contains ',' with
      | false => simp only [reported, hmany, Bool.false_eq_true, if_false, hnames]
      | true =>
        simp only [reported, hmany, if_true, String.toList_append, ← hnames]
        rfl

/-- The edits of a marker are those of a fence in the statement on its line. -/
theorem fence_marker (h : Clean source o) (hf : IsName options.debugFunction.toList) (c : Comment) :
    markerEdits o options (statements o) c = [] ∨ ∃ s ∈ statements o,
      o.line s.first = c.line ∧ o.line s.last = c.line ∧
      Fence o options s (markerEdits o options (statements o) c) := by
  unfold markerEdits
  split
  · exact .inl rfl
  · next s honly =>
    have hmem : s ∈ (statements o).filter fun s => o.line s.last = c.line && o.stop s.last ≤ c.start := by
      unfold onlyStatement at honly
      split at honly
      · next t heq =>
        obtain rfl := Option.some.inj honly
        rw [heq]
        exact List.mem_singleton_self _
      · cases honly
    obtain ⟨hs, hlast⟩ := List.mem_filter.mp hmem
    simp only [Bool.and_eq_true, decide_eq_true_eq] at hlast
    extract_lets head
    split
    · exact .inl rfl
    · next hplain =>
      have hfirst : o.line s.first = c.line := by
        refine Decidable.byContradiction fun hne => hplain ?_
        simp [hne]
      refine .inr ⟨s, hs, hfirst, hlast.1, ?_⟩
      split
      · next op hop => exact fence_assignment h hf hs hop
      · split
        · exact .nil
        · rw [← hfirst]
          exact fence_report h hf hs

/-- The markers of a program ask for the values of statements that stand one behind the other. -/
theorem spread_markers (h : Clean source o) (hf : IsName options.debugFunction.toList)
    {comments : List Comment} (hc : comments.Pairwise fun c c' => c.line < c'.line) :
    ∃ stmts, Spread (Fence o options) stmts
        (comments.flatMap (markerEdits o options (statements o))) ∧
      stmts.Pairwise (fun s t => s.last < t.first) ∧
      ∀ s ∈ stmts, s ∈ statements o ∧ ∃ c ∈ comments, o.line s.first = c.line ∧ o.line s.last = c.line := by
  induction comments with
  | nil => exact ⟨[], .nil, .nil, fun s hs => by cases hs⟩
  | cons c comments ih =>
    obtain ⟨hline, hc⟩ := List.pairwise_cons.mp hc
    obtain ⟨stmts, hspread, hsorted, hmem⟩ := ih hc
    have hmem' : ∀ s ∈ stmts, s ∈ statements o ∧
        ∃ c' ∈ c :: comments, o.line s.first = c'.line ∧ o.line s.last = c'.line := by
      intro s hs
      obtain ⟨hs, c', hc', hlines⟩ := hmem s hs
      exact ⟨hs, c', List.mem_cons_of_mem c hc', hlines⟩
    rw [List.flatMap_cons]
    rcases fence_marker h hf c with hnil | ⟨s, hs, hfirst, hlast, hfence⟩
    · rw [hnil]
      exact ⟨stmts, hspread, hsorted, hmem'⟩
    · refine ⟨s :: stmts, .cons hfence hspread, List.pairwise_cons.mpr ⟨fun t ht => ?_, hsorted⟩,
        List.forall_mem_cons.mpr ⟨⟨hs, c, List.mem_cons_self, hfirst, hlast⟩, hmem'⟩⟩
      obtain ⟨-, c', hc', hfirst', -⟩ := hmem t ht
      have hlt := hline c' hc'
      refine Nat.lt_of_not_le fun hle => ?_
      have hlines := h.seated.placed.line_le_line hle (whole_statements h.settled s hs).within
      omega

/-- Markers take nothing out. -/
theorem insertion_markerEdits {c : Comment} :
    ∀ e ∈ markerEdits o options stmts c, e.kind ≠ .replace ∧ e.stop = e.start := by
  have hopen (p : Nat) (w : String) : (Edit.openAt p w).kind ≠ .replace ∧
      (Edit.openAt p w).stop = (Edit.openAt p w).start := ⟨fun hk => (by cases hk), rfl⟩
  have hclose (p : Nat) (w : String) : (Edit.closeAt p w).kind ≠ .replace ∧
      (Edit.closeAt p w).stop = (Edit.closeAt p w).start := ⟨fun hk => (by cases hk), rfl⟩
  unfold markerEdits
  split
  · exact fun e he => by cases he
  · extract_lets head
    split
    · exact fun e he => by cases he
    · split
      · unfold assignmentEdits
        extract_lets targetsEnd plain targets names reported
        split
        · exact fun e he => by cases he
        · split
          · exact fun e he => by cases he
          · exact List.forall_mem_singleton.mpr (hclose _ _)
      · split
        · exact fun e he => by cases he
        · exact List.forall_mem_cons.mpr ⟨hopen _ _, List.forall_mem_singleton.mpr (hclose _ _)⟩

theorem Placing.stop_le (h : Clean source o) {e : Edit} (he : Placing o options e) :
    e.stop ≤ source.length := by
  rw [← h.source]
  cases he with
  | opens ht hk heven hb => exact h.seated.placed.start_le _
  | closes ht hk heven => exact h.seated.placed.stop_le _
  | print hi => exact h.seated.placed.stop_le _
  | loop ht hk heven hw => exact h.seated.placed.start_le _

/-- Reports for markers bring no fault into a program. -/
theorem check_markMagicComments (h : check source = .ok ()) (hf : IsName options.debugFunction.toList) :
    check (markMagicComments options source) = .ok () := by
  have hclean := clean_of_check h
  have hmarked : ((tokenize .python source).comments.filter isMarker).Pairwise
      fun c c' => c.line < c'.line := (rising_comments source).sublist List.filter_sublist
  obtain ⟨stmts, hspread, hapart, hmem⟩ := spread_markers hclean hf hmarked
  rw [markMagicComments]
  generalize hedits : ((tokenize .python source).comments.filter isMarker).flatMap
    (markerEdits (tokenize .python source).outline options
      (statements (tokenize .python source).outline)) = edits at hspread ⊢
  have hinsert : ∀ e ∈ edits, e.kind ≠ .replace ∧ e.stop = e.start := by
    intro e he
    rw [← hedits] at he
    obtain ⟨c, -, he⟩ := List.mem_flatMap.mp he
    exact insertion_markerEdits e he
  have hplacing := hspread.placing
  have hother : edits.filter (· ∉ printEdits (tokenize .python source).outline options) = edits := by
    refine List.filter_eq_self.mpr fun e he => decide_eq_true fun hprint => ?_
    obtain ⟨i, -, rfl⟩ := mem_printEdits.mp hprint
    exact (hinsert _ he).1 rfl
  have hfits : ∀ e ∈ edits, e.Fits source.length := fun e he =>
    ⟨fun _ => (hinsert e he).2, fun hk => absurd hk (hinsert e he).1, (hplacing e he).stop_le hclean⟩
  have hkept : ∀ e ∈ edits, e ∈ Edit.kept edits source := fun e he =>
    Edit.mem_kept hfits he fun f hf hk => absurd hk (hinsert f hf).1
  have hfirst : ∀ s ∈ stmts, s.first < (tokenize .python source).outline.size := fun s hs =>
    have hwhole := whole_statements hclean.settled s (hmem s hs).1
    Nat.lt_of_le_of_lt hwhole.le hwhole.within
  have hsorted := hspread.sorted hclean.seated.placed hfirst hapart
  refine check_apply h hf hplacing ?_
  rw [Edit.filter_kept (by rw [hother]) hsorted hkept]
  exact hspread.settles []

/-- Neither the reports for markers nor instrumentation bring a fault into a program. Only brackets can
fail to match, where the head of a call of `print` overlaps the start or the end of a report. -/
theorem check_inserted (h : check source = .ok ()) (hf : IsName options.debugFunction.toList) :
    check (markMagicComments options source) = .ok () ∧
    (tokenize .python (instrument options source)).diagnostics = [] ∧
    ((∀ s ∈ reported (tokenize .python source).outline options,
        Apart (tokenize .python source).outline s) → check (instrument options source) = .ok ()) := by
  have hplacing := placing_instrumentEdits (clean_of_check h) hf
  exact ⟨check_markMagicComments h hf, diagnostics_apply h hf hplacing, check_instrument h hf⟩

/-- A marker, a guard, a call of `print` and a report. -/
theorem check_inserted_of_loop :
    let source := "x = [1] #?\nfor i in x:\n    print(i)\nx + x\n".toList
    let options : Options := {}
    check source = .ok () ∧ IsName options.debugFunction.toList ∧
    reported (tokenize .python source).outline options ≠ [] ∧
    check (markMagicComments options source) = .ok () ∧ check (instrument options source) = .ok () := by
  intro source options
  have hcheck : check source = .ok () := by
    have hnone : (tokenize .python source).firstFault = none := by decide +kernel
    unfold check
    rw [hnone]
  have hname : IsName options.debugFunction.toList := by decide +kernel
  have hreported : reported (tokenize .python source).outline options = [⟨14, 16, true⟩] := by
    decide +kernel
  have hheads : ∀ i < (tokenize .python source).outline.size,
      isPrintHead (tokenize .python source).outline i → 14 ≠ i + 1 ∧ 16 ≠ i := by decide +kernel
  obtain ⟨hmarkers, -, hinstrument⟩ := check_inserted hcheck hname
  refine ⟨hcheck, hname, by rw [hreported]; exact List.cons_ne_nil _ _, hmarkers, hinstrument ?_⟩
  rw [hreported]
  exact List.forall_mem_singleton.mpr fun i hi =>
    hheads i (Nat.lt_of_succ_lt (lt_size_of_isPrintHead hi)) hi

end Python

end Scratchpad
