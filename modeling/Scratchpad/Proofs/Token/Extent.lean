import Scratchpad.Token.Extent
import Mathlib.Tactic.Common

/-!
Literals and comments whose end was found: what stands behind the end does not matter to them.
-/
namespace Scratchpad.Token

variable {φ ψ χ : List Char → Extent} {u cs r : List Char} {quote : Char} {depth : Nat}

/-- The end was found, and nothing inside is at fault. -/
def Extent.Sound (e : Extent) : Prop := e.closed ∧ e.inner = []

@[simp] theorem Extent.sound_behind {n : Nat} {e : Extent} : (e.behind n).Sound ↔ e.Sound := by
  simp [Extent.Sound, Extent.behind]

@[simp] theorem Extent.length_behind {n : Nat} {e : Extent} : (e.behind n).length = n + e.length := rfl

theorem Extent.behind_behind {m n : Nat} {e : Extent} : (e.behind n).behind m = e.behind (m + n) := by
  simp [Extent.behind, Nat.add_assoc]

/-- The scan `φ` of `cs` comes to its end within `cs`, and would come to it whatever stood behind. -/
structure Closes (φ : List Char → Extent) (cs : List Char) : Prop where
  pos : 0 < (φ cs).length
  le : (φ cs).length ≤ cs.length
  stays : ∀ rest, φ (cs.take (φ cs).length ++ rest) = φ cs

theorem head?_take_append {n : Nat} (h : 0 < n) (hcs : n ≤ cs.length) (rest : List Char) :
    (cs.take n ++ rest).head? = cs.head? := by
  cases cs with
  | nil => simp at hcs; omega
  | cons c cs => cases n with
    | zero => omega
    | succ n => rfl

/-- A scan that reads some characters and goes on as another one, at least on what that one reads. -/
theorem Closes.behind_of_take (h : Closes ψ cs) (hall : φ (u ++ cs) = (ψ cs).behind u.length)
    (hstep : ∀ rest, φ (u ++ (cs.take (ψ cs).length ++ rest))
      = (ψ (cs.take (ψ cs).length ++ rest)).behind u.length) : Closes φ (u ++ cs) := by
  refine ⟨?_, ?_, fun rest => ?_⟩
  · rw [hall, Extent.length_behind]
    exact Nat.add_pos_right _ h.pos
  · rw [hall, Extent.length_behind, List.length_append]
    exact Nat.add_le_add_left h.le _
  · rw [hall, Extent.length_behind, List.take_length_add_append, List.append_assoc, hstep,
      h.stays rest]

/-- A scan that reads some characters and goes on as another one. -/
theorem Closes.behind (h : Closes ψ cs)
    (hstep : ∀ cs', cs'.head? = cs.head? → φ (u ++ cs') = (ψ cs').behind u.length) :
    Closes φ (u ++ cs) :=
  h.behind_of_take (hstep cs rfl) fun rest => hstep _ (head?_take_append h.pos h.le rest)

/-- A scan that reads some characters, then what another one reads, and goes on as a third. -/
theorem Closes.seq {f : Extent → Extent → Extent} (h : Closes ψ cs)
    (h' : Closes χ (cs.drop (ψ cs).length))
    (hstep : ∀ cs', cs'.head? = cs.head? → φ (u ++ cs') = f (ψ cs') (χ (cs'.drop (ψ cs').length)))
    (hlen : (φ (u ++ cs)).length = u.length + ((ψ cs).length + (χ (cs.drop (ψ cs).length)).length)) :
    Closes φ (u ++ cs) := by
  have hle := h'.le
  rw [List.length_drop] at hle
  have hle' := h.le
  have hpos := h.pos
  refine ⟨by omega, by rw [hlen, List.length_append]; omega, fun rest => ?_⟩
  have hsplit : cs.take ((ψ cs).length + (χ (cs.drop (ψ cs).length)).length) ++ rest
      = cs.take (ψ cs).length
        ++ ((cs.drop (ψ cs).length).take (χ (cs.drop (ψ cs).length)).length ++ rest) := by
    rw [List.take_add, List.append_assoc]
  have hdrop (tail : List Char) : (cs.take (ψ cs).length ++ tail).drop (ψ cs).length = tail :=
    List.drop_left' (List.length_take_of_le hle')
  rw [hlen, List.take_length_add_append, List.append_assoc, hsplit,
    hstep _ (head?_take_append hpos hle' _), h.stays, hdrop, h'.stays, hstep cs rfl]

/-- A scan that ends with the first character. -/
theorem Closes.at_once {n : Nat} (hn : 0 < n) (hu : u.length = n)
    (hstep : ∀ cs', φ (u ++ cs') = ⟨n, true, []⟩) : Closes φ (u ++ cs) := by
  have hlen : (φ (u ++ cs)).length = n := by rw [hstep]
  refine ⟨by omega, by rw [hlen, List.length_append]; omega, fun rest => ?_⟩
  rw [hlen, ← hu, List.take_left, hstep, hstep]

/-- A character that is neither a last backslash nor one in front of another character. -/
theorem not_slash {c : Char} (he : c = '\\' → r = [] → False) (he' : ∀ d t, c = '\\' → r = d :: t → False) :
    c ≠ '\\' := fun hc => by
  cases r with
  | nil => exact he hc rfl
  | cons d t => exact he' d t hc rfl

theorem closes_quoted (h : (quoted quote cs).Sound) : Closes (quoted quote) cs := by
  induction cs using quoted.induct quote with
  | case1 => simp [quoted, Extent.Sound] at h
  | case2 => simp [quoted, Extent.Sound] at h
  | case3 => simp [quoted, Extent.Sound] at h
  | case4 c r ih =>
    have hstep (r' : List Char) : quoted quote ('\\' :: c :: r') = (quoted quote r').behind 2 := by
      rw [quoted]
    rw [hstep r, Extent.sound_behind] at h
    exact (ih h).behind (u := ['\\', c]) fun r' _ => hstep r'
  | case5 r hn he he' =>
    have hslash : quote ≠ '\\' := not_slash he he'
    refine Closes.at_once (u := [quote]) Nat.one_pos rfl fun r' => ?_
    rw [List.cons_append, quoted.eq_5 _ _ _ hn (fun h => absurd h hslash)
      (fun _ _ h => absurd h hslash), if_pos rfl]
  | case6 c r hn he he' hq ih =>
    have hslash : c ≠ '\\' := not_slash he he'
    have hstep (r' : List Char) : quoted quote (c :: r') = (quoted quote r').behind 1 := by
      rw [quoted.eq_5 _ _ _ hn (fun h => absurd h hslash) (fun _ _ h => absurd h hslash), if_neg hq]
    rw [hstep r, Extent.sound_behind] at h
    exact (ih h).behind (u := [c]) fun r' _ => hstep r'

theorem length_tripleQuoted (h : (tripleQuoted quote cs).Sound) : 3 ≤ (tripleQuoted quote cs).length := by
  fun_induction tripleQuoted quote cs with
  | case1 => exact absurd h.1 (by decide)
  | case2 => exact absurd h.1 (by decide)
  | case3 c r ih =>
    have hle := ih (Extent.sound_behind.mp h)
    rw [Extent.length_behind]
    omega
  | case4 => exact Nat.le_refl 3
  | case5 c r he he' hq ih =>
    have hle := ih (Extent.sound_behind.mp h)
    rw [Extent.length_behind]
    omega

theorem startsWithPair_take {n : Nat} (hn : 2 ≤ n) (hcs : n ≤ cs.length) (rest : List Char) :
    startsWithPair quote (cs.take n ++ rest) = startsWithPair quote cs := by
  obtain ⟨n, rfl⟩ := Nat.exists_eq_add_of_le' hn
  match cs with
  | [] | [_] => simp at hcs
  | c :: d :: cs => rfl

theorem closes_tripleQuoted (h : (tripleQuoted quote cs).Sound) : Closes (tripleQuoted quote) cs := by
  induction cs using tripleQuoted.induct quote with
  | case1 => simp [tripleQuoted, Extent.Sound] at h
  | case2 => simp [tripleQuoted, Extent.Sound] at h
  | case3 c r ih =>
    have hstep (r' : List Char) :
        tripleQuoted quote ('\\' :: c :: r') = (tripleQuoted quote r').behind 2 := by
      rw [tripleQuoted]
    rw [hstep r, Extent.sound_behind] at h
    exact (ih h).behind (u := ['\\', c]) fun r' _ => hstep r'
  | case4 c r he he' hq =>
    obtain ⟨hc, hpair⟩ := Bool.and_eq_true_iff.mp hq
    obtain rfl : c = quote := of_decide_eq_true hc
    have hslash : c ≠ '\\' := not_slash he he'
    obtain ⟨t, rfl⟩ : ∃ t, r = c :: c :: t := by
      match r with
      | [] | [_] => cases hpair
      | d :: e :: t =>
        simp only [startsWithPair, Bool.and_eq_true, decide_eq_true_eq] at hpair
        exact ⟨t, by rw [hpair.1, hpair.2]⟩
    refine Closes.at_once (n := 3) (u := [c, c, c]) (by decide) rfl fun r' => ?_
    exact (tripleQuoted.eq_4 c c (c :: c :: r') (fun h => absurd h hslash)
      (fun _ _ h => absurd h hslash)).trans (if_pos (by simp [startsWithPair]))
  | case5 c r he he' hq ih =>
    have hslash : c ≠ '\\' := not_slash he he'
    have hstep (r' : List Char) (hr : startsWithPair quote r' = startsWithPair quote r) :
        tripleQuoted quote (c :: r') = (tripleQuoted quote r').behind 1 := by
      rw [tripleQuoted.eq_4 _ _ _ (fun h => absurd h hslash) (fun _ _ h => absurd h hslash),
        if_neg (by rw [hr]; exact hq)]
    rw [hstep r rfl, Extent.sound_behind] at h
    have hle := length_tripleQuoted h
    exact (ih h).behind_of_take (u := [c]) (hstep r rfl) fun rest =>
      hstep _ (startsWithPair_take (by omega) (ih h).le rest)

theorem closes_blockComment (h : (blockComment cs).Sound) : Closes blockComment cs := by
  induction cs using blockComment.induct with
  | case1 => simp [blockComment, Extent.Sound] at h
  | case2 r =>
    refine Closes.at_once (n := 2) (u := ['*', '/']) (by decide) rfl fun r' => ?_
    rw [List.cons_append, List.cons_append, blockComment]
  | case3 c r hne ih =>
    have hstep (r' : List Char) (hr : r'.head? = r.head?) :
        blockComment (c :: r') = (blockComment r').behind 1 := by
      rw [blockComment]
      intro t hc ht
      rw [ht] at hr
      obtain ⟨d, t', rfl⟩ : ∃ d t', r = d :: t' := by
        cases r with
        | nil => cases hr
        | cons d t' => exact ⟨d, t', rfl⟩
      obtain rfl : '/' = d := Option.some.inj hr
      exact hne t' hc rfl
    rw [hstep r rfl, Extent.sound_behind] at h
    exact (ih h).behind (u := [c]) hstep

theorem inner_blockComment : (blockComment cs).inner = [] := by
  induction cs using blockComment.induct with
  | case1 => rw [blockComment]
  | case2 r => rw [blockComment]
  | case3 c r hne ih =>
    rw [blockComment, Extent.behind, ih]
    · rfl
    · exact hne

theorem pos_blockComment {c : Char} : 0 < (blockComment (c :: r)).length := by
  unfold blockComment
  split
  · contradiction
  · decide
  · rw [Extent.length_behind]
    omega

/-- A comment without an end takes the rest of the text. -/
theorem length_blockComment (h : ¬(blockComment cs).closed) : (blockComment cs).length = cs.length := by
  induction cs using blockComment.induct with
  | case1 => rw [blockComment]; rfl
  | case2 r => simp [blockComment] at h
  | case3 c r hne ih =>
    have hstep : blockComment (c :: r) = (blockComment r).behind 1 := by
      rw [blockComment]
      exact hne
    rw [hstep] at h ⊢
    rw [Extent.length_behind, ih h, List.length_cons, Nat.add_comm]

theorem drop_lineLength {c : Char} {t : List Char} (h : r.drop (lineLength r) = c :: t) : c = '\n' := by
  have hrest : r.dropWhile (· ≠ '\n') = c :: t := by
    have hsplit := List.takeWhile_append_dropWhile (p := (· ≠ '\n')) (l := r)
    rw [← h, lineLength]
    nth_rewrite 3 [← hsplit]
    rw [List.drop_left]
  have hhead := List.head?_dropWhile_not (· ≠ '\n') r
  rw [hrest] at hhead
  simpa using hhead

/-- Of two lists that begin alike, neither begins with what the other does not begin with. -/
theorem head?_ne {c : Char} {r r' : List Char} (hr : r'.head? = r.head?) (h : ∀ t, r ≠ c :: t)
    (t : List Char) : r' ≠ c :: t := by
  rintro rfl
  cases r with
  | nil => cases hr
  | cons d r => exact h r (by rw [Option.some.inj hr])

section

/-- Templates and the code in them close in texts of fewer than `n` characters. -/
def Closing (n : Nat) : Prop := ∀ cs : List Char, cs.length < n →
  ((template cs).Sound → Closes template cs) ∧
    ∀ depth, (substitution depth cs).Sound → Closes (substitution depth) cs

variable {n : Nat} (ih : Closing n)

include ih

theorem closes_template_hole (hlt : ('$' :: '\x7b' :: r).length < n + 1)
    (h : (template ('$' :: '\x7b' :: r)).Sound) : Closes template ('$' :: '\x7b' :: r) := by
  have hlt : r.length + 1 < n := by simpa using hlt
  rw [template] at h
  by_cases hole : (substitution 0 r).closed
  · simp only [hole, if_true, Extent.Sound, List.append_eq_nil_iff] at h
    obtain ⟨hclosed, hinner, hrest⟩ := h
    have hfirst := (ih r (by omega)).2 0 ⟨hole, by simpa [Extent.behind] using hinner⟩
    have hthen := (ih (r.drop (substitution 0 r).length) (by rw [List.length_drop]; omega)).1
      ⟨hclosed, by simpa [Extent.behind] using hrest⟩
    refine Closes.seq (u := ['$', '\x7b']) hfirst hthen (f := fun hole rest =>
      if hole.closed then
        { rest with
          length := 2 + hole.length + rest.length
          inner := (hole.behind 2).inner ++ (rest.behind (2 + hole.length)).inner }
      else hole.behind 2) (fun r' _ => ?_) ?_
    · rw [List.cons_append, List.cons_append, List.nil_append, template]
    · rw [List.cons_append, List.cons_append, List.nil_append, template, if_pos hole]
      simp only [List.length_cons, List.length_nil]
      omega
  · simp [hole, Extent.Sound, Extent.behind] at h

theorem closes_substitution_char {c : Char} {d : Nat} (hlt : (c :: r).length < n + 1)
    (hstep : ∀ r' : List Char, r'.head? = r.head? →
      substitution depth (c :: r') = (substitution d r').behind 1)
    (h : (substitution depth (c :: r)).Sound) : Closes (substitution depth) (c :: r) := by
  rw [hstep r rfl, Extent.sound_behind] at h
  exact ((ih r (by simpa using hlt)).2 d h).behind (u := [c]) hstep

/-- A literal or a comment in the code of a template, and what follows it there. -/
theorem closes_substitution_then {c : Char} {φ : List Char → Extent} (fault : Text.Fault)
    (hlt : (c :: r).length < n + 1) (hφ : (φ r).Sound → Closes φ r)
    (hstep : ∀ r' : List Char, r'.head? = r.head? → substitution depth (c :: r')
      = .thenFrom 0 ((φ r').behind 1) fault
        ((substitution depth (r'.drop (φ r').length)).behind (1 + (φ r').length)))
    (h : (substitution depth (c :: r)).Sound) : Closes (substitution depth) (c :: r) := by
  have hlt : r.length < n := by simpa using hlt
  rw [hstep r rfl] at h
  simp only [Extent.Sound, Extent.thenFrom, Extent.behind, List.append_eq_nil_iff] at h
  obtain ⟨hclosed, ⟨hinner, hown⟩, hrest⟩ := h
  have hfirst : (φ r).closed := by
    refine Decidable.byContradiction fun hc => ?_
    simp [hc] at hown
  have hthen := (ih (r.drop (φ r).length) (by rw [List.length_drop]; omega)).2 depth
    ⟨hclosed, by simpa using hrest⟩
  refine Closes.seq (u := [c]) (hφ ⟨hfirst, by simpa using hinner⟩) hthen
    (f := fun e rest => .thenFrom 0 (e.behind 1) fault (rest.behind (1 + e.length))) hstep ?_
  rw [List.cons_append, List.nil_append, hstep r rfl]
  simp only [Extent.thenFrom, Extent.behind, List.length_cons, List.length_nil]
  omega

theorem closes_substitution_block (hlt : ('/' :: '*' :: r).length < n + 1)
    (h : (substitution depth ('/' :: '*' :: r)).Sound) :
    Closes (substitution depth) ('/' :: '*' :: r) := by
  have hstep (r' : List Char) : substitution depth ('/' :: '*' :: r')
      = (substitution depth (('*' :: r').drop (blockComment ('*' :: r')).length)).behind
        (1 + (blockComment ('*' :: r')).length) := by
    obtain ⟨m, hm⟩ := Nat.exists_eq_add_of_lt (pos_blockComment (c := '*') (r := r'))
    have hdrop : ('*' :: r').drop (blockComment ('*' :: r')).length
        = r'.drop ((blockComment ('*' :: r')).behind 1).length.pred.pred := by
      rw [Extent.length_behind, hm, Nat.zero_add, Nat.add_comm 1]
      rfl
    rw [substitution, hdrop]
    rfl
  have hlt : r.length + 1 < n := by simpa using hlt
  rw [hstep, Extent.sound_behind] at h
  have hcomment : (blockComment ('*' :: r)).closed := by
    refine Decidable.byContradiction fun hc => ?_
    rw [length_blockComment hc, List.drop_length] at h
    simp [substitution, Extent.Sound] at h
  have hsound : (blockComment ('*' :: r)).Sound := ⟨hcomment, inner_blockComment⟩
  have hle := (closes_blockComment hsound).le
  refine Closes.seq (u := ['/']) (closes_blockComment hsound) ((ih _ ?_).2 depth h)
    (f := fun e rest => rest.behind (1 + e.length)) (fun r' hr => ?_) ?_
  · rw [List.length_drop, List.length_cons]
    omega
  · cases r' with
    | nil => cases hr
    | cons d r' =>
      obtain rfl : d = '*' := Option.some.inj hr
      exact hstep r'
  · rw [List.cons_append, List.nil_append, hstep]
    simp only [Extent.length_behind, List.length_cons, List.length_nil]
    omega

/-- A comment in the code of a template ends in front of a line break that is part of the code. -/
theorem closes_substitution_line (hlt : ('/' :: '/' :: r).length < n + 1)
    (h : (substitution depth ('/' :: '/' :: r)).Sound) :
    Closes (substitution depth) ('/' :: '/' :: r) := by
  have hstep (r' : List Char) : substitution depth ('/' :: '/' :: r')
      = (substitution depth (r'.drop (lineLength r'))).behind (lineLength r' + 2) := by
    rw [substitution]
  have hlt : r.length + 1 < n := by simpa using hlt
  rw [hstep, Extent.sound_behind] at h
  have hclose := (ih (r.drop (lineLength r)) (by rw [List.length_drop]; omega)).2 depth h
  have hle := hclose.le
  have hpos := hclose.pos
  rw [List.length_drop] at hle
  refine ⟨by rw [hstep, Extent.length_behind]; omega,
    by rw [hstep, Extent.length_behind, List.length_cons, List.length_cons]; omega, fun rest => ?_⟩
  generalize hm : (substitution depth (r.drop (lineLength r))).length = m at hle hpos
  obtain ⟨t, ht⟩ : ∃ t, (r.drop (lineLength r)).take m = '\n' :: t := by
    obtain ⟨m, rfl⟩ : ∃ m', m = m' + 1 := ⟨m - 1, by omega⟩
    cases hd : r.drop (lineLength r) with
    | nil =>
      have hlen := congrArg List.length hd
      rw [List.length_drop, List.length_nil] at hlen
      omega
    | cons c t =>
      exact ⟨t.take m, by rw [List.take_succ_cons, drop_lineLength hd]⟩
  have hline (tail : List Char) : lineLength (r.take (lineLength r) ++ '\n' :: tail) = lineLength r := by
    have htake : r.take (lineLength r) = r.takeWhile (· ≠ '\n') :=
      List.prefix_iff_eq_take.mp (List.takeWhile_prefix _) ▸ rfl
    have hall := List.all_takeWhile (p := fun c => decide (c ≠ '\n')) (l := r)
    rw [htake, lineLength, List.takeWhile_append_of_pos (List.all_eq_true.mp hall)]
    simp [lineLength]
  have hsplit : r.take (lineLength r + m) ++ rest = r.take (lineLength r) ++ '\n' :: (t ++ rest) := by
    rw [List.take_add, ht, List.append_assoc]
    rfl
  have hlen : (substitution depth ('/' :: '/' :: r)).length = 2 + (lineLength r + m) := by
    rw [hstep, Extent.length_behind, hm]
    omega
  rw [hlen, Nat.add_comm 2, List.take_succ_cons, List.take_succ_cons, List.cons_append,
    List.cons_append, hstep, hsplit, hline, List.drop_left' (List.length_take_of_le (by omega))]
  have hlocal := hclose.stays rest
  rw [hm, ht] at hlocal
  rw [hstep]
  exact congrArg (Extent.behind (lineLength r + 2)) hlocal

end

theorem closing (n : Nat) : Closing n := by
  induction n with
  | zero => exact fun cs h => absurd h (Nat.not_lt_zero _)
  | succ n ih =>
    intro cs hlt
    refine ⟨fun h => ?_, fun depth h => ?_⟩
    · unfold template at h
      split at h
      · simp [Extent.Sound] at h
      · simp [Extent.Sound] at h
      · next c r =>
        have hstep (r' : List Char) : template ('\\' :: c :: r') = (template r').behind 2 := by
          rw [template]
        exact ((ih r (by simp at hlt; omega)).1 (by simpa using h)).behind (u := ['\\', c])
          fun r' _ => hstep r'
      · refine Closes.at_once (u := ['\x60']) Nat.one_pos rfl fun r' => ?_
        rw [List.cons_append, template]
      · exact closes_template_hole ih hlt (by unfold template; exact h)
      · next c r he he' hq hhole =>
        have hslash : c ≠ '\\' := not_slash he he'
        have hstep (r' : List Char) (hr : r'.head? = r.head?) :
            template (c :: r') = (template r').behind 1 := by
          rw [template]
          · exact fun hc => absurd hc hslash
          · exact fun _ _ hc => absurd hc hslash
          · exact hq
          · exact fun t hc => head?_ne hr (fun t => hhole t hc) t
        exact ((ih r (by simpa using hlt)).1 (by simpa using h)).behind (u := [c]) hstep
    · have hscan := h
      unfold substitution at hscan
      split at hscan
      · simp [Extent.Sound] at hscan
      · next r =>
        exact closes_substitution_char ih hlt (d := depth + 1) (fun r' _ => by rw [substitution]) h
      · next r =>
        cases depth with
        | zero =>
          refine Closes.at_once (u := ['\x7d']) Nat.one_pos rfl fun r' => ?_
          rw [List.cons_append, substitution]
        | succ d => exact closes_substitution_char ih hlt (d := d) (fun r' _ => by rw [substitution]) h
      · next r =>
        refine closes_substitution_then ih .unterminatedTemplate hlt (φ := template)
          (ih r (by simpa using hlt)).1 (fun r' _ => ?_) h
        rw [substitution]
        simp
      · exact closes_substitution_line ih hlt h
      · exact closes_substitution_block ih hlt h
      · next c r hopen hclose hback hline hblock =>
        have hhead {r' : List Char} (hr : r'.head? = r.head?) :
            (∀ t, c = '/' → r' = '/' :: t → False) ∧ (∀ t, c = '/' → r' = '*' :: t → False) :=
          ⟨fun t hc => head?_ne hr (fun t => hline t hc) t,
            fun t hc => head?_ne hr (fun t => hblock t hc) t⟩
        by_cases hquote : c = '"' ∨ c = '\''
        · refine closes_substitution_then ih .unterminatedString hlt (φ := quoted c)
            closes_quoted (fun r' hr => ?_) h
          rw [substitution.eq_8 _ _ _ hopen hclose hback (hhead hr).1 (hhead hr).2,
            if_pos (by simpa using hquote)]
          simp
        · refine closes_substitution_char ih hlt (d := depth) (fun r' hr => ?_) h
          rw [substitution.eq_8 _ _ _ hopen hclose hback (hhead hr).1 (hhead hr).2,
            if_neg (by simpa using hquote)]

theorem closes_template (h : (template cs).Sound) : Closes template cs :=
  (closing (cs.length + 1) cs (Nat.lt_succ_self _)).1 h

section

variable {e e' : Extent} {m n : Nat} {fault : Text.Fault}

/-- The faults inside lie within the extent. -/
def Extent.Bounded (e : Extent) : Prop := ∀ x ∈ e.inner, x.1 ≤ e.length

theorem Extent.bounded_of_nil (h : e.inner = []) : e.Bounded := by simp [Bounded, h]

theorem Extent.Bounded.behind (h : e.Bounded) : (e.behind n).Bounded := by
  intro x hx
  obtain ⟨y, hy, rfl⟩ := List.mem_map.mp hx
  exact Nat.add_le_add_left (h y hy) n

/-- An extent that a text of `n` characters has room for; the faults inside are at its characters. -/
structure Extent.Within (n : Nat) (e : Extent) : Prop where
  length_le : e.length ≤ n
  inner_lt : ∀ x ∈ e.inner, x.1 < e.length

theorem Extent.Within.bounded (h : e.Within n) : e.Bounded :=
  fun x hx => Nat.le_of_lt (h.inner_lt x hx)

theorem Extent.Within.of_nil (h : e.inner = []) (hn : e.length ≤ n) : e.Within n :=
  ⟨hn, by simp [h]⟩

theorem Extent.Within.behind (h : e.Within n) : (e.behind m).Within (m + n) := by
  refine ⟨Nat.add_le_add_left h.length_le m, fun x hx => ?_⟩
  obtain ⟨y, hy, rfl⟩ := List.mem_map.mp hx
  exact Nat.add_lt_add_left (h.inner_lt y hy) m

theorem Extent.Within.mono (h : e.Within m) (hn : m ≤ n) : e.Within n :=
  ⟨Nat.le_trans h.length_le hn, h.inner_lt⟩

theorem Extent.Within.thenFrom (h : e.Within m) (hpos : 0 < e.length) (h' : e'.Within n) :
    (Extent.thenFrom 0 e fault (e'.behind e.length)).Within (e.length + n) := by
  refine ⟨Nat.add_le_add_left h'.length_le e.length, fun x hx => ?_⟩
  have hlength : (Extent.thenFrom 0 e fault (e'.behind e.length)).length = e.length + e'.length := rfl
  rw [hlength]
  simp only [Extent.thenFrom, List.mem_append] at hx
  rcases hx with (hx | hx) | hx
  · exact Nat.lt_add_right _ (h.inner_lt x hx)
  · split at hx
    · cases hx
    · obtain rfl := List.mem_singleton.mp hx
      exact Nat.add_pos_left hpos _
  · exact h'.behind.inner_lt x hx

theorem inner_quoted : (quoted quote cs).inner = [] := by
  fun_induction quoted quote cs <;> simp_all [Extent.behind]

theorem inner_tripleQuoted : (tripleQuoted quote cs).inner = [] := by
  fun_induction tripleQuoted quote cs <;> simp_all [Extent.behind]

theorem length_quoted_le : (quoted quote cs).length ≤ cs.length := by
  fun_induction quoted quote cs with
  | case1 => exact Nat.le_refl 0
  | case2 => exact Nat.zero_le _
  | case3 => exact Nat.le_refl 1
  | case4 c r ih =>
    rw [Extent.length_behind, List.length_cons, List.length_cons]
    omega
  | case5 => exact Nat.le_add_left 1 _
  | case6 c r hn he he' hq ih =>
    rw [Extent.length_behind, List.length_cons]
    omega

theorem length_blockComment_le : (blockComment cs).length ≤ cs.length := by
  fun_induction blockComment cs with
  | case1 => exact Nat.le_refl 0
  | case2 r => exact Nat.le_add_left 2 _
  | case3 c r hn ih =>
    rw [Extent.length_behind, List.length_cons]
    omega

theorem within_quoted : (quoted quote cs).Within cs.length := .of_nil inner_quoted length_quoted_le

theorem within_blockComment : (blockComment cs).Within cs.length :=
  .of_nil inner_blockComment length_blockComment_le

theorem within_upto (n : Nat) : ∀ cs : List Char, cs.length < n →
    (template cs).Within cs.length ∧ ∀ depth, (substitution depth cs).Within cs.length := by
  induction n with
  | zero => exact fun cs hcs => absurd hcs (Nat.not_lt_zero _)
  | succ n ih =>
    refine fun cs hcs => ⟨?_, fun depth => ?_⟩
    · have hgo {k : Nat} {cs' : List Char} (h : cs'.length < n) (hk : k + cs'.length ≤ cs.length) :
          ((template cs').behind k).Within cs.length := (ih cs' h).1.behind.mono hk
      cases cs using template.fun_cases with
      | case1 | case2 | case4 => simp [template, Extent.Within.of_nil]
      | case3 c cs =>
        rw [template]
        exact hgo (by simp at hcs; omega) (by simp; omega)
      | case5 cs hole hclosed =>
        have hhole : hole.Within cs.length := (ih cs (by simp at hcs; omega)).2 0
        have hrest := (ih (cs.drop hole.length) (by simp at hcs ⊢; omega)).1
        have hlength := hrest.length_le
        have hroom := hhole.length_le
        rw [template, if_pos hclosed]
        refine ⟨?_, fun x hx => ?_⟩
        · rw [List.length_drop] at hlength
          show 2 + hole.length + (template (cs.drop hole.length)).length ≤ cs.length + 2
          omega
        · rcases List.mem_append.mp hx with hx | hx
          · exact Nat.lt_add_right _ (hhole.behind.inner_lt x hx)
          · exact hrest.behind.inner_lt x hx
      | case6 cs hole hopen =>
        rw [template, if_neg hopen]
        exact ((ih cs (by simp at hcs; omega)).2 0).behind.mono (by simp; omega)
      | case7 c cs he he' hq hd =>
        rw [template.eq_6 _ _ he he' hq hd]
        exact hgo (by simpa using hcs) (by simp; omega)
    · have hgo {k depth : Nat} {cs' : List Char} (h : cs'.length < n) (hk : k + cs'.length ≤ cs.length) :
          ((substitution depth cs').behind k).Within cs.length := ((ih cs' h).2 depth).behind.mono hk
      cases depth, cs using substitution.fun_cases with
      | case1 | case3 => simp [substitution, Extent.Within.of_nil]
      | case2 depth cs | case4 cs depth =>
        rw [substitution]
        exact hgo (by simpa using hcs) (by simp; omega)
      | case5 depth cs =>
        have hliteral := (ih cs (by simpa using hcs)).1
        have hroom := hliteral.length_le
        rw [substitution]
        refine (hliteral.behind.thenFrom (Nat.add_pos_left Nat.one_pos _) ((ih _ (by simp at hcs ⊢; omega)).2 depth)).mono ?_
        simp
        omega
      | case6 depth cs =>
        have hroom : lineLength cs ≤ cs.length := (List.takeWhile_prefix _).length_le
        rw [substitution]
        exact hgo (by simp at hcs ⊢; omega) (by simp; omega)
      | case7 depth cs =>
        have hroom : (blockComment ('*' :: cs)).length ≤ ('*' :: cs).length := length_blockComment_le
        rw [substitution]
        exact hgo (by simp at hcs ⊢; omega) (by simp at hroom ⊢; omega)
      | case8 depth c cs hopen hclose hq hline hblock hc =>
        have hroom : (quoted c cs).length ≤ cs.length := length_quoted_le
        rw [substitution.eq_8 _ _ _ hopen hclose hq hline hblock, if_pos hc]
        refine (within_quoted.behind.thenFrom (Nat.add_pos_left Nat.one_pos _)
          ((ih _ (by simp at hcs ⊢; omega)).2 depth)).mono ?_
        simp
        omega
      | case9 depth c cs hopen hclose hq hline hblock hc =>
        rw [substitution.eq_8 _ _ _ hopen hclose hq hline hblock, if_neg hc]
        exact hgo (by simpa using hcs) (by simp; omega)

theorem within_template : (template cs).Within cs.length :=
  (within_upto (cs.length + 1) cs (Nat.lt_succ_self _)).1

theorem bounded_template : (template cs).Bounded := within_template.bounded

end

end Scratchpad.Token
