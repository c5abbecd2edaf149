import Scratchpad.Proofs.Token.Extent
import Scratchpad.Token.Lexeme

/-!
Templates in the code of templates, scanned step by step. A comment in such code takes as much text as
the same comment does elsewhere, and what it says does not move the end of the template, unless a
slash with more text behind it follows the star that opens the comment: in the code of a template that
star and that slash end the comment.
-/
namespace Scratchpad.Token

/-- What the scan of a template is in: its text, or code with some braces open. -/
inductive Layer where
  | text
  | code (depth : Nat)
deriving DecidableEq, Repr

namespace Layer

/-- The layers that take the place of the innermost one behind the next thing in it, which begins with
`c`, and how many of the characters behind `c` belong to that thing. -/
def step : Layer → Char → List Char → List Layer × Nat
  | text, '\\', _ :: _ => ([text], 1)
  | text, '\x60', _ => ([], 0)
  | text, '$', '\x7b' :: _ => ([code 0, text], 1)
  | text, _, _ => ([text], 0)
  | code depth, '\x7b', _ => ([code (depth + 1)], 0)
  | code 0, '\x7d', _ => ([], 0)
  | code (depth + 1), '\x7d', _ => ([code depth], 0)
  | code depth, '\x60', _ => ([text, code depth], 0)
  | code depth, '/', '/' :: r => ([code depth], 1 + lineLength r)
  | code depth, '/', '*' :: r => ([code depth], (blockComment ('*' :: r)).length)
  | code depth, c, r => ([code depth], if c = '"' || c = '\'' then (quoted c r).length else 0)

/-- The places that the scan of the text `cs` of a template comes to, with the layers it is in there,
the innermost one first. -/
inductive Comes (cs : List Char) : List Layer → Nat → Prop where
  | start : Comes cs [text] 0
  | step {top : Layer} {below : List Layer} {n : Nat} {c : Char} {r : List Char}
      (h : Comes cs (top :: below) n) (hr : cs.drop n = c :: r) :
      Comes cs ((top.step c r).1 ++ below) (n + ((top.step c r).2 + 1))

def extent : Layer → List Char → Extent
  | text => template
  | code depth => substitution depth

/-- An end `n` characters further on. -/
def shift (n : Nat) (p : Nat × Bool) : Nat × Bool := (n + p.1, p.2)

/-- How far layers within one another go, and whether all of them come to their ends. -/
def reach : List Layer → List Char → Nat × Bool
  | [], _ => (0, true)
  | top :: below, cs =>
    let e := top.extent cs
    if e.closed then shift e.length (reach below (cs.drop e.length)) else (e.length, false)

variable {cs u v w r t : List Char} {layers below : List Layer} {top : Layer} {c quote : Char}
  {n m depth : Nat} {e : Extent}

@[simp] theorem shift_shift {p : Nat × Bool} : shift n (shift m p) = shift (n + m) p := by
  simp [shift, Nat.add_assoc]

theorem shift_zero {p : Nat × Bool} : shift 0 p = p := by simp [shift]

theorem reach_text : reach [text] cs = ((template cs).length, (template cs).closed) := by
  cases h : (template cs).closed <;> simp [reach, extent, shift, h]

section

/-- What is not closed goes on to the end of the text. -/
def Fills (e : Extent) (cs : List Char) : Prop :=
  e.length ≤ cs.length ∧ (e.closed = false → e.length = cs.length)

theorem Fills.behind (h : Fills e r) (hr : cs.drop n = r) (hn : n ≤ cs.length) :
    Fills (e.behind n) cs := by
  obtain ⟨hle, hopen⟩ := h
  have hlength := congrArg List.length hr
  rw [List.length_drop] at hlength
  refine ⟨?_, fun hclosed => ?_⟩
  · rw [Extent.length_behind]
    omega
  · have hall := hopen hclosed
    rw [Extent.length_behind]
    omega

theorem quoted_le (quote : Char) (cs : List Char) : (quoted quote cs).length ≤ cs.length := by
  fun_induction quoted quote cs <;> simp only [Extent.length_behind, List.length_cons,
    List.length_nil] at * <;> omega

theorem blockComment_le (cs : List Char) : (blockComment cs).length ≤ cs.length := by
  fun_induction blockComment cs <;> simp only [Extent.length_behind, List.length_cons,
    List.length_nil] at * <;> omega

theorem lineLength_le (cs : List Char) : lineLength cs ≤ cs.length :=
  (List.takeWhile_sublist _).length_le

/-- What stands behind a literal of `n` characters that begins with `c`. -/
theorem drop_literal : (c :: r).drop (1 + n) = r.drop (1 + n - 1) := by
  rw [Nat.add_comm, List.drop_succ_cons, Nat.add_sub_cancel]

/-- What stands behind a comment is counted from its star on. -/
theorem drop_block : ('/' :: '*' :: r).drop (1 + (blockComment ('*' :: r)).length)
    = r.drop (1 + (blockComment ('*' :: r)).length - 2) := by
  obtain ⟨m, hm⟩ := Nat.exists_eq_add_of_lt (pos_blockComment (c := '*') (r := r))
  rw [hm, Nat.zero_add, Nat.add_comm, List.drop_succ_cons, List.drop_succ_cons]
  rfl

theorem fills_upto (n : Nat) : ∀ cs : List Char, cs.length < n →
    Fills (template cs) cs ∧ ∀ depth, Fills (substitution depth cs) cs := by
  -- each of the two goes on as the other, so a bound on the text carries both
  induction n with
  | zero => exact fun cs hcs => absurd hcs (Nat.not_lt_zero _)
  | succ n ih =>
    refine fun cs hcs => ⟨?_, fun depth => ?_⟩
    · cases cs using template.fun_cases with
      | case1 | case2 | case4 => simp [template, Fills]
      | case3 c cs =>
        rw [template]
        exact (ih cs (by simp at hcs; omega)).1.behind rfl (by simp)
      | case5 cs hole hclosed =>
        have hle : hole.length ≤ cs.length := ((ih cs (by simp at hcs; omega)).2 0).1
        have hrest := (ih (cs.drop hole.length) (by simp at hcs ⊢; omega)).1
        have hall : Fills ((template (cs.drop hole.length)).behind (2 + hole.length))
            ('$' :: '\x7b' :: cs) :=
          hrest.behind (by rw [Nat.add_comm]; rfl) (by simp only [List.length_cons]; omega)
        rw [template, if_pos hclosed]
        exact hall
      | case6 cs hole hopen =>
        rw [template, if_neg hopen]
        exact ((ih cs (by simp at hcs; omega)).2 0).behind rfl (by simp)
      | case7 c cs he he' hq hd =>
        rw [template.eq_6 _ _ he he' hq hd]
        exact (ih cs (by simpa using hcs)).1.behind rfl (by simp)
    · have hgo {k depth : Nat} {cs' r : List Char} (hr : cs'.drop k = r) (hk : k ≤ cs'.length)
          (h : r.length < n) : Fills ((substitution depth r).behind k) cs' :=
        ((ih r h).2 depth).behind hr hk
      cases depth, cs using substitution.fun_cases with
      | case1 | case3 => simp [substitution, Fills]
      | case2 depth cs | case4 cs depth =>
        rw [substitution]
        exact hgo rfl (by simp) (by simpa using hcs)
      | case5 depth cs =>
        rw [substitution]
        have hle := (ih cs (by simpa using hcs)).1.1
        exact hgo drop_literal (by simp; omega) (by simp at hcs ⊢; omega)
      | case6 depth cs =>
        rw [substitution]
        have hle := lineLength_le cs
        exact hgo rfl (by simp; omega) (by simp at hcs ⊢; omega)
      | case7 depth cs =>
        rw [substitution]
        have hle := blockComment_le ('*' :: cs)
        exact hgo drop_block (by simp at hle ⊢; omega) (by simp at hcs ⊢; omega)
      | case8 depth c cs hopen hclose hq hline hblock hc =>
        rw [substitution.eq_8 _ _ _ hopen hclose hq hline hblock, if_pos hc]
        have hle := quoted_le c cs
        exact hgo drop_literal (by simp; omega) (by simp at hcs ⊢; omega)
      | case9 depth c cs hopen hclose hq hline hblock hc =>
        rw [substitution.eq_8 _ _ _ hopen hclose hq hline hblock, if_neg hc]
        exact hgo rfl (by simp) (by simpa using hcs)

theorem drop_of_open (h : (template cs).closed = false) : cs.drop (template cs).length = [] :=
  List.drop_eq_nil_of_le
    (Nat.le_of_eq (((fills_upto _ cs (Nat.lt_succ_self _)).1.2 h).symm))

end

/-- An extent that goes as far as another one, from `n` characters in front of it. -/
def Precedes (n : Nat) (e e' : Extent) : Prop := e.length = n + e'.length ∧ e.closed = e'.closed

theorem Precedes.of_behind {e' : Extent} (h : e = e'.behind n) : Precedes n e e' := by
  rw [h]
  exact ⟨rfl, rfl⟩

/-- A layer that goes on as another one behind the thing at its front. -/
theorem reach_behind {top' : Layer} (ht : r.drop n = t)
    (h : Precedes (n + 1) (top.extent (c :: r)) (top'.extent t)) :
    reach (top :: below) (c :: r) = shift (n + 1) (reach (top' :: below) t) := by
  obtain ⟨hlength, hclosed⟩ := h
  have hdrop : (c :: r).drop (top.extent (c :: r)).length = t.drop (top'.extent t).length := by
    rw [hlength, ← List.drop_drop, List.drop_succ_cons, ht]
  simp only [reach, hclosed, hdrop]
  split
  · rw [hlength, shift_shift]
  · rw [hlength, shift]

/-- A layer with another one in it: behind the inner one it goes on, unless that one is left open. -/
theorem reach_nested {inner top' : Layer} (ht : r.drop n = t)
    (hclosed : (inner.extent t).closed → Precedes (n + (inner.extent t).length + 1)
      (top.extent (c :: r)) (top'.extent (t.drop (inner.extent t).length)))
    (hopen : (inner.extent t).closed = false →
      Precedes (n + 1) (top.extent (c :: r)) (inner.extent t)) :
    reach (top :: below) (c :: r) = shift (n + 1) (reach (inner :: top' :: below) t) := by
  cases h : (inner.extent t).closed with
  | true =>
    rw [reach.eq_2 t, if_pos h, shift_shift, Nat.add_right_comm]
    exact reach_behind (by rw [← ht, List.drop_drop]) (hclosed h)
  | false =>
    obtain ⟨hlength, hend⟩ := hopen h
    simp [reach, h, hend, hlength, shift]

theorem precedes_hole (h : (substitution 0 r).closed) :
    Precedes (1 + (substitution 0 r).length + 1) (template ('$' :: '\x7b' :: r))
      (template (r.drop (substitution 0 r).length)) := by
  rw [template, if_pos h, Nat.add_right_comm]
  exact ⟨rfl, rfl⟩

theorem template_of_open (h : (substitution 0 r).closed = false) :
    template ('$' :: '\x7b' :: r) = (substitution 0 r).behind 2 := by
  rw [template, if_neg (by rw [h]; exact Bool.false_ne_true)]

theorem precedes_nested (depth : Nat) (r : List Char) : Precedes ((template r).length + 1)
    (substitution depth ('\x60' :: r)) (substitution depth (r.drop (template r).length)) := by
  rw [substitution]
  simp [Precedes, Extent.thenFrom, Extent.behind, Nat.add_comm]

theorem precedes_block : Precedes ((blockComment ('*' :: r)).length + 1)
    (substitution depth ('/' :: '*' :: r))
    (substitution depth (('*' :: r).drop (blockComment ('*' :: r)).length)) := by
  rw [substitution, Extent.length_behind, ← drop_block, Nat.add_comm 1, List.drop_succ_cons]
  exact .of_behind rfl

/-- A quote hides what stands in it, and every other character only itself. -/
theorem precedes_char (hopen : c ≠ '\x7b') (hclose : c ≠ '\x7d') (hback : c ≠ '\x60')
    (hline : ∀ t, c = '/' → r = '/' :: t → False) (hblock : ∀ t, c = '/' → r = '*' :: t → False) :
    Precedes ((if c = '"' || c = '\'' then (quoted c r).length else 0) + 1)
      (substitution depth (c :: r)) (substitution depth
        (r.drop (if c = '"' || c = '\'' then (quoted c r).length else 0))) := by
  rw [substitution.eq_8 _ _ _ hopen hclose hback hline hblock]
  split
  · simp [Precedes, Extent.thenFrom, Extent.behind, Nat.add_comm]
  · exact .of_behind rfl

theorem template_char (hback : c ≠ '\x60') (hslash : ∀ d t, c = '\\' → r = d :: t → False)
    (hhole : ∀ t, c = '$' → r = '\x7b' :: t → False) :
    template (c :: r) = (template r).behind 1 := by
  by_cases h : c = '\\' ∧ r = []
  · rw [h.1, h.2, template, template]
    rfl
  · rw [template.eq_6 _ _ (fun hc hr => h ⟨hc, hr⟩) hslash hback hhole]

/-- A step takes nothing away from how far the layers go. -/
theorem reach_step : reach (top :: below) (c :: r)
    = shift ((top.step c r).2 + 1) (reach ((top.step c r).1 ++ below) (r.drop (top.step c r).2)) := by
  fun_cases Layer.step top c r with
  | case1 d r => exact reach_behind rfl (.of_behind (by rw [extent, template]; rfl))
  | case2 => simp [reach, extent, template]
  | case3 r => exact reach_nested (t := r) rfl precedes_hole fun h => .of_behind (template_of_open h)
  | case4 c r hslash hback hhole =>
    exact reach_behind rfl (.of_behind (template_char hback hslash hhole))
  | case5 depth => exact reach_behind rfl (.of_behind (by rw [extent, substitution]; rfl))
  | case6 => simp [reach, extent, substitution]
  | case7 depth => exact reach_behind rfl (.of_behind (by rw [extent, substitution]; rfl))
  | case8 depth =>
    have hnested := precedes_nested depth r
    refine reach_nested (n := 0) (t := r) rfl (fun _ => ?_) fun h => ?_
    · rw [Nat.zero_add]
      exact hnested
    · -- an open template leaves nothing behind it for the code around it
      obtain ⟨hlength, hclosed⟩ := hnested
      rw [drop_of_open h, substitution] at hlength hclosed
      exact ⟨hlength.trans (Nat.add_comm ((template r).length + 0) 1), hclosed.trans h.symm⟩
  | case9 depth r =>
    refine reach_behind rfl (.of_behind ?_)
    rw [extent, substitution, Nat.add_comm 1]
    rfl
  | case10 depth r => exact reach_behind rfl precedes_block
  | case11 depth c r hopen hclose hclose' hback hline hblock =>
    refine reach_behind rfl (precedes_char hopen (fun hc => ?_) hback hline hblock)
    cases depth with
    | zero => exact hclose hc rfl
    | succ d => exact hclose' d hc rfl

/-- Wherever a scan has come to, how far its layers go from there is how far the template goes. -/
theorem Comes.reach_eq (h : Comes cs layers n) :
    reach [text] cs = shift n (reach layers (cs.drop n)) := by
  induction h with
  | start => exact shift_zero.symm
  | @step top below n c r h hr ih =>
    have hdrop : cs.drop (n + ((top.step c r).2 + 1)) = r.drop (top.step c r).2 := by
      rw [← List.drop_drop, hr, List.drop_succ_cons]
    rw [ih, hr, reach_step, shift_shift, hdrop]

section

theorem quoted_char (hn : c ≠ '\n') (hs : c ≠ '\\') : quoted quote (c :: r)
    = if c = quote then ⟨1, true, []⟩ else (quoted quote r).behind 1 :=
  quoted.eq_5 _ _ _ hn (fun h => absurd h hs) (fun _ _ h => absurd h hs)

/-- The text behind a quoted literal does not matter to it, so long as the literal ends in front of it
and no line does. -/
theorem quoted_stays : ∀ {u : List Char}, (quoted quote (u ++ '/' :: v)).length ≤ u.length →
    quoted quote (u ++ '/' :: w) = quoted quote (u ++ '/' :: v)
  | [], h => by
    rw [List.nil_append, quoted_char (by decide) (by decide)] at h
    split at h <;> simp at h
  | c :: u, h => by
    by_cases hn : c = '\n'
    · simp [quoted, hn]
    by_cases hs : c = '\\'
    · subst hs
      cases u with
      | nil =>
        simp only [List.cons_append, List.nil_append, quoted, Extent.length_behind, List.length_cons,
          List.length_nil] at h
        omega
      | cons d u =>
        simp only [List.cons_append, quoted, Extent.length_behind, List.length_cons] at h ⊢
        rw [quoted_stays (by omega)]
    · rw [List.cons_append, quoted_char hn hs] at h
      rw [List.cons_append, List.cons_append, quoted_char hn hs, quoted_char hn hs]
      split
      · rfl
      · rw [if_neg ‹_›, Extent.length_behind, List.length_cons] at h
        rw [quoted_stays (by omega)]

theorem lineLength_stays (h : lineLength (u ++ '/' :: v) ≤ u.length) :
    lineLength (u ++ '/' :: w) = lineLength (u ++ '/' :: v) := by
  induction u with
  | nil => simp [lineLength] at h
  | cons c u ih =>
    by_cases hc : c = '\n'
    · simp [lineLength, hc]
    · have hstep (t : List Char) : lineLength (c :: t) = lineLength t + 1 := by
        simp [lineLength, hc]
      rw [List.cons_append, hstep, List.length_cons] at h
      rw [List.cons_append, List.cons_append, hstep, hstep, ih (by omega)]

theorem blockComment_stays (h : (blockComment (u ++ '/' :: v)).length ≤ u.length) :
    blockComment (u ++ '/' :: w) = blockComment (u ++ '/' :: v) := by
  have hclosed : (blockComment (u ++ '/' :: v)).closed := by
    refine Decidable.byContradiction fun hopen => ?_
    rw [length_blockComment hopen, List.length_append, List.length_cons] at h
    omega
  have hstays := (closes_blockComment ⟨hclosed, inner_blockComment⟩).stays
    (u.drop (blockComment (u ++ '/' :: v)).length ++ '/' :: w)
  rwa [List.take_append_of_le_length h, ← List.append_assoc, List.take_append_drop] at hstays

/-- A step that ends in front of a slash takes nothing of what stands behind the slash into account. -/
theorem step_stays (h : (top.step c (u ++ '/' :: v)).2 ≤ u.length) :
    top.step c (u ++ '/' :: w) = top.step c (u ++ '/' :: v) := by
  have hhead : (u ++ '/' :: w).head? = (u ++ '/' :: v).head? := by cases u <;> rfl
  generalize hr : u ++ '/' :: v = r at h hhead
  fun_cases Layer.step top c r with
  | case1 d t =>
    cases u with
    | nil => cases h
    | cons => rfl
  | case2 | case5 | case6 | case7 | case8 => rfl
  | case3 t =>
    cases u with
    | nil => cases hr
    | cons d u =>
      obtain rfl : d = '\x7b' := List.head_eq_of_cons_eq hr
      rfl
  | case4 c r hslash hback hhole =>
    refine Layer.step.eq_4 _ _ hback (fun d t hc _ => ?_)
      fun t hc => head?_ne hhead (fun t => hhole t hc) t
    cases r with
    | nil => exact absurd hr (List.append_ne_nil_of_right_ne_nil _ (List.cons_ne_nil _ _))
    | cons d t => exact hslash d t hc rfl
  | case9 depth r =>
    simp only [Layer.step] at h
    cases u with
    | nil =>
      rw [List.length_nil] at h
      omega
    | cons d u =>
      rw [List.cons_append] at hr
      obtain ⟨rfl, rfl⟩ := List.cons.inj hr
      rw [List.length_cons] at h
      rw [List.cons_append, Layer.step, lineLength_stays (v := v) (by omega)]
  | case10 depth r =>
    simp only [Layer.step] at h
    cases u with
    | nil => cases hr
    | cons d u =>
      rw [List.cons_append] at hr
      obtain ⟨rfl, rfl⟩ := List.cons.inj hr
      have hstays := blockComment_stays (u := '*' :: u) (v := v) (w := w) h
      rw [List.cons_append, List.cons_append] at hstays
      rw [List.cons_append, Layer.step, hstays]
  | case11 depth c r hopen hclose hclose' hback hline hblock =>
    rw [Layer.step.eq_11 _ _ _ hopen hclose hclose' hback hline hblock] at h
    rw [Layer.step.eq_11 _ _ _ hopen hclose hclose' hback
      (fun t hc => head?_ne hhead (fun t => hline t hc) t)
      (fun t hc => head?_ne hhead (fun t => hblock t hc) t)]
    subst hr
    split
    · rw [if_pos ‹_›] at h
      rw [quoted_stays h]
    · rfl

end

/-- The places in front of a slash that a scan comes to do not depend on what stands behind it. -/
theorem Comes.move (h : Comes (u ++ '/' :: v) layers n) (hn : n ≤ u.length) :
    Comes (u ++ '/' :: w) layers n := by
  induction h with
  | start => exact .start
  | @step top below n c r h hr ih =>
    have hlt : n < u.length := by omega
    have hdrop (v : List Char) : (u ++ '/' :: v).drop n = u[n] :: (u.drop (n + 1) ++ '/' :: v) := by
      rw [List.drop_append_of_le_length (Nat.le_of_lt hlt), List.drop_eq_getElem_cons hlt,
        List.cons_append]
    obtain ⟨rfl, rfl⟩ := List.cons.inj ((hdrop v).symm.trans hr)
    have hstays := step_stays (w := w) (h := (by rw [List.length_drop]; omega :
      (top.step u[n] (u.drop (n + 1) ++ '/' :: v)).2 ≤ (u.drop (n + 1)).length))
    rw [← hstays]
    exact .step (ih (Nat.le_of_lt hlt)) (hdrop w)

/-- Text that begins with a slash and does not end with it. The star of `/*` in front of it opens a
comment and, were it read once more, would end one. -/
def SharesStar (r : List Char) : Prop := ∃ c t, r = '/' :: c :: t

theorem more_block (f : Bool) :
    (lexeme .script f '/' ('*' :: r)).more = 1 + (blockComment r).length := by
  simp [lexeme, isBlank, ofExtent]

theorem length_block (h : ¬ SharesStar r) :
    (blockComment ('*' :: r)).length = 1 + (blockComment r).length := by
  cases r with
  | nil => rfl
  | cons c t =>
    by_cases hc : c = '/'
    · subst hc
      cases t with
      | nil => rfl
      | cons c t => exact absurd ⟨c, t, rfl⟩ h
    · rw [blockComment, Extent.length_behind]
      exact fun t _ ht => hc (List.head_eq_of_cons_eq ht)

theorem length_block_of_sharesStar (h : SharesStar r) : (blockComment ('*' :: r)).length = 2 := by
  obtain ⟨c, t, rfl⟩ := h
  rw [blockComment]

theorem lt_more_block (h : SharesStar r) (f : Bool) :
    2 < (lexeme .script f '/' ('*' :: r)).more := by
  obtain ⟨c, t, rfl⟩ := h
  have hpos := pos_blockComment (c := c) (r := t)
  rw [more_block, blockComment, Extent.length_behind]
  · omega
  · exact fun t hc => absurd hc (by decide)

/-- What a template reaches from a comment of its code on is what its layers reach from the end of the
comment on. -/
theorem Comes.reach_comment (h : Comes (u ++ '/' :: '*' :: r) (code depth :: below) u.length)
    (hr : ¬ SharesStar r) : reach [text] (u ++ '/' :: '*' :: r)
      = shift (u.length + (2 + (blockComment r).length))
        (reach (code depth :: below) (r.drop (blockComment r).length)) := by
  have hstep : (code depth).step '/' ('*' :: r) = ([code depth], 1 + (blockComment r).length) := by
    rw [Layer.step, length_block hr]
  rw [h.reach_eq, List.drop_left, reach_step, hstep, shift_shift, Nat.add_comm 1, List.drop_succ_cons]
  congr 1
  omega

/-- A comment in the code of a template ends where the same comment ends outside of templates, and what
it says is nothing to the template, unless a slash and more stand behind the star that opens it. Then
the scan of the template goes on right behind that slash. -/
theorem comment_in_template
    (h : Comes (u ++ '/' :: '*' :: r) (code depth :: below) u.length) (f : Bool) :
    (∃ k, Comes (u ++ '/' :: '*' :: r) (code depth :: below) (u.length + (k + 1)) ∧
      ((template (u ++ '/' :: '*' :: r)).length, (template (u ++ '/' :: '*' :: r)).closed)
        = shift (u.length + (k + 1)) (reach (code depth :: below) (('*' :: r).drop k)) ∧
      (k = (lexeme .script f '/' ('*' :: r)).more ↔ ¬ SharesStar r) ∧ (SharesStar r → k = 2)) ∧
    ∀ r', ¬ SharesStar r → ¬ SharesStar r' →
      r'.drop (blockComment r').length = r.drop (blockComment r).length →
        (template (u ++ '/' :: '*' :: r')).closed = (template (u ++ '/' :: '*' :: r)).closed ∧
        (template (u ++ '/' :: '*' :: r')).length + (blockComment r).length
          = (template (u ++ '/' :: '*' :: r)).length + (blockComment r').length := by
  have hnext := h.step (c := '/') (r := '*' :: r) List.drop_left
  rw [Layer.step] at hnext
  have hrest := hnext.reach_eq
  rw [reach_text, List.drop_length_add_append, List.drop_succ_cons] at hrest
  refine ⟨⟨(blockComment ('*' :: r)).length, hnext, hrest, ⟨fun hk hs => ?_, fun hs => ?_⟩,
    length_block_of_sharesStar⟩, fun r' hr hr' hdrop => ?_⟩
  · rw [length_block_of_sharesStar hs] at hk
    exact Nat.lt_irrefl _ (hk ▸ lt_more_block hs f)
  · rw [more_block, length_block hs]
  · have hreach := h.reach_comment hr
    have hreach' := (h.move (w := '*' :: r') (Nat.le_refl _)).reach_comment hr'
    rw [reach_text] at hreach hreach'
    rw [hdrop] at hreach'
    obtain ⟨hlength, hclosed⟩ := Prod.mk.inj hreach
    obtain ⟨hlength', hclosed'⟩ := Prod.mk.inj hreach'
    refine ⟨hclosed'.trans hclosed.symm, ?_⟩
    rw [hlength, hlength']
    omega

/-- A brace and a back quote in a comment leave the template around it as it is. -/
theorem comment_in_template_of_quote :
    let u := "$\x7b".toList
    let r := " \x7d \x60 */ 1\x7d\x60".toList
    let r' := "*/ 1\x7d\x60".toList
    Comes (u ++ '/' :: '*' :: r) [code 0, text] u.length ∧ ¬ SharesStar r ∧ ¬ SharesStar r' ∧
      (template (u ++ '/' :: '*' :: r)).closed ∧
      (template (u ++ '/' :: '*' :: r)).length = (template (u ++ '/' :: '*' :: r')).length + 5 := by
  intro u r r'
  have hcomes : Comes (u ++ '/' :: '*' :: r) [code 0, text] u.length := .step .start rfl
  have hr : ¬ SharesStar r := fun ⟨_, _, h⟩ =>
    absurd (congrArg List.head? h) (show r.head? ≠ some '/' by decide)
  have hr' : ¬ SharesStar r' := fun ⟨_, _, h⟩ =>
    absurd (congrArg List.head? h) (show r'.head? ≠ some '/' by decide)
  obtain ⟨hclosed, hlength⟩ := (comment_in_template hcomes false).2 r' hr hr' (by decide)
  have hcomment : (blockComment r).length = 7 := by decide
  have hcomment' : (blockComment r').length = 2 := by decide
  refine ⟨hcomes, hr, hr', ?_, ?_⟩
  · rw [← hclosed]
    decide +kernel
  · omega

/-- With a slash behind its star, the same comment is over before the brace and the back quote. -/
example : (template "$\x7b/*/ \x7d \x60 */ 1\x7d\x60".toList).length = 9 := by decide +kernel

end Layer

end Scratchpad.Token
