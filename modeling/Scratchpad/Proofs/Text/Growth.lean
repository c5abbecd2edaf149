import Scratchpad.Proofs.Token.Rewriting
import Mathlib.Data.List.Basic

/-!
Texts that grow on some of their lines: insertions that break no line leave every line where it was,
every character of it in its place among the others, and a line that gets none of them as it was.
-/
namespace Scratchpad.Text

variable {marked : Nat → Prop} {n k : Nat} {c : Char} {cs out pre source : List Char}
  {es edits : List Edit} {cursor : Nat}

/-- `out` is `cs` with more characters in it, none of them a line break and all of them on marked
lines; the text begins on line `n`, counted from 0. -/
inductive Grown (marked : Nat → Prop) : Nat → List Char → List Char → Prop where
  | nil {n : Nat} : Grown marked n [] []
  | feed {n : Nat} {cs out : List Char} (h : Grown marked (n + 1) cs out) :
      Grown marked n ('\n' :: cs) ('\n' :: out)
  | keep {n : Nat} {c : Char} {cs out : List Char} (hc : c ≠ '\n') (h : Grown marked n cs out) :
      Grown marked n (c :: cs) (c :: out)
  | insert {n : Nat} {c : Char} {cs out : List Char} (hn : marked n) (hc : c ≠ '\n')
      (h : Grown marked n cs out) : Grown marked n cs (c :: out)

namespace Grown

theorem keep_append (h : Grown marked (n + pre.count '\n') cs out) :
    Grown marked n (pre ++ cs) (pre ++ out) := by
  induction pre generalizing n with
  | nil => exact h
  | cons c pre ih =>
    by_cases hc : c = '\n'
    · subst hc
      rw [List.count_cons_self, ← Nat.add_assoc, Nat.add_right_comm] at h
      exact .feed (ih h)
    · rw [List.count_cons_of_ne hc] at h
      exact .keep hc (ih h)

theorem refl (n : Nat) (cs : List Char) : Grown marked n cs cs := by
  have h : Grown marked n (cs ++ []) (cs ++ []) := keep_append .nil
  rwa [List.append_nil] at h

theorem insert_append (hn : marked n) (hpre : '\n' ∉ pre) (h : Grown marked n cs out) :
    Grown marked n cs (pre ++ out) := by
  induction pre with
  | nil => exact h
  | cons c pre ih =>
    exact .insert hn (fun hc => hpre (hc ▸ List.mem_cons_self))
      (ih fun hmem => hpre (List.mem_cons_of_mem c hmem))

/-- The text is made of pieces, each with what was inserted behind it. -/
theorem pieces (h : Grown marked n cs out) : ∃ ps : List (List Char × List Char),
    ps.flatMap Prod.fst = cs ∧ ps.flatMap (fun p => p.1 ++ p.2) = out ∧ ∀ p ∈ ps, '\n' ∉ p.2 := by
  induction h with
  | nil => exact ⟨[], rfl, rfl, nofun⟩
  | feed _ ih =>
    obtain ⟨ps, rfl, rfl, hps⟩ := ih
    exact ⟨(['\n'], []) :: ps, rfl, rfl, List.forall_mem_cons.mpr ⟨List.not_mem_nil, hps⟩⟩
  | @keep _ c _ _ _ _ ih =>
    obtain ⟨ps, rfl, rfl, hps⟩ := ih
    exact ⟨([c], []) :: ps, rfl, rfl, List.forall_mem_cons.mpr ⟨List.not_mem_nil, hps⟩⟩
  | @insert _ c _ _ _ hc _ ih =>
    obtain ⟨ps, rfl, rfl, hps⟩ := ih
    refine ⟨([], [c]) :: ps, rfl, rfl, List.forall_mem_cons.mpr ⟨?_, hps⟩⟩
    rw [List.mem_singleton]
    exact Ne.symm hc

end Grown

/-- The lines of a text begin with the first of them. -/
theorem splitOn_eq_cons (cs : List Char) : ∃ l ls, cs.splitOn '\n' = l :: ls :=
  List.exists_cons_of_ne_nil (List.splitOn_ne_nil _ _)

theorem splitOn_feed : ('\n' :: cs).splitOn '\n' = [] :: cs.splitOn '\n' := by
  rw [List.splitOn_cons_eq_if_modifyHead, if_pos (beq_self_eq_true _)]

theorem splitOn_char {l : List Char} {ls : List (List Char)} (hc : c ≠ '\n')
    (h : cs.splitOn '\n' = l :: ls) : (c :: cs).splitOn '\n' = (c :: l) :: ls := by
  rw [List.splitOn_cons_eq_if_modifyHead, if_neg (by simpa using hc), h, List.modifyHead_cons]

/-- Line by line, what stood in a text still stands there, and a line without a mark is unchanged. -/
inductive Keeps (marked : Nat → Prop) : Nat → List (List Char) → List (List Char) → Prop where
  | nil {n : Nat} : Keeps marked n [] []
  | cons {n : Nat} {l l' : List Char} {ls ls' : List (List Char)} (hsub : l.Sublist l')
      (heq : ¬ marked n → l' = l) (h : Keeps marked (n + 1) ls ls') :
      Keeps marked n (l :: ls) (l' :: ls')

theorem Grown.keeps (h : Grown marked n cs out) :
    Keeps marked n (cs.splitOn '\n') (out.splitOn '\n') := by
  induction h with
  | nil => exact .cons (.refl _) (fun _ => rfl) .nil
  | feed _ ih =>
    rw [splitOn_feed, splitOn_feed]
    exact .cons (.refl _) (fun _ => rfl) ih
  | @keep n c cs out hc _ ih =>
    obtain ⟨l, ls, hl⟩ := splitOn_eq_cons cs
    obtain ⟨l', ls', hl'⟩ := splitOn_eq_cons out
    rw [splitOn_char hc hl, splitOn_char hc hl']
    rw [hl, hl'] at ih
    cases ih with
    | cons hsub heq h => exact .cons (hsub.cons_cons c) (fun hn => congrArg (c :: ·) (heq hn)) h
  | @insert n c cs out hn hc _ ih =>
    -- the new character belongs to the first line of the rest, which is marked
    obtain ⟨l, ls, hl⟩ := splitOn_eq_cons cs
    obtain ⟨l', ls', hl'⟩ := splitOn_eq_cons out
    rw [splitOn_char hc hl', hl]
    rw [hl, hl'] at ih
    cases ih with
    | cons hsub heq h => exact .cons (hsub.cons c) (fun hnot => absurd hn hnot) h

theorem Keeps.length {ls ls' : List (List Char)} (h : Keeps marked n ls ls') :
    ls'.length = ls.length := by
  induction h with
  | nil => rfl
  | cons _ _ _ ih => rw [List.length_cons, List.length_cons, ih]

theorem Keeps.line {ls ls' : List (List Char)} {line line' : List Char} (h : Keeps marked n ls ls')
    (hk : ls[k]? = some line) (hk' : ls'[k]? = some line') :
    line.Sublist line' ∧ (¬ marked (n + k) → line' = line) := by
  induction h generalizing k with
  | nil => cases hk
  | cons hsub heq _ ih =>
    cases k with
    | zero =>
      obtain rfl := Option.some.inj hk
      obtain rfl := Option.some.inj hk'
      exact ⟨hsub, heq⟩
    | succ k =>
      rw [← Nat.add_assoc, Nat.add_right_comm]
      exact ih hk hk'

namespace Edit

/-- Insertions without line breaks let a text grow on the lines where they stand. -/
theorem grown_splice (h : Spaced source.length cursor es)
    (hes : ∀ e ∈ es, e.stop = e.start ∧ Unbroken e.text ∧ marked ((source.take e.start).count '\n')) :
    Grown marked ((source.take cursor).count '\n') (source.drop cursor)
      (splice cursor (source.drop cursor) es) := by
  induction es generalizing cursor with
  | nil => exact .refl _ _
  | cons e es ih =>
    obtain ⟨hs, ht, h⟩ := h
    obtain ⟨⟨hstop, htext, hmarked⟩, hes⟩ := List.forall_mem_cons.mp hes
    have htail := ih h hes
    rw [splice_drop_cons hs ht, ← slice_append_drop hs]
    rw [hstop] at htail ⊢
    refine .keep_append ?_
    rw [← List.count_append, take_append_slice hs]
    exact .insert_append hmarked htext htail

theorem grown_apply (h : ∀ e ∈ edits, e.stop = e.start ∧ Unbroken e.text ∧
    marked ((source.take e.start).count '\n')) : Grown marked 0 source (apply edits source) :=
  grown_splice spaced_kept fun e he => h e (mem_of_mem_kept he)

end Edit

end Scratchpad.Text
