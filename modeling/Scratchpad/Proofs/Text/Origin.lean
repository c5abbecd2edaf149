import Mathlib.Algebra.GroupWithZero.Nat
import Scratchpad.Text.Edit

/-!
Where the characters of an edited text come from. A character that an edit wrote has no origin; any
other one is the character of the source at its origin, and the edits in front of it tell how many
line breaks it gained or lost on the way.
-/
namespace Scratchpad.Text

variable {source : List Char} {a b n : Nat}

theorem slice_append_drop (h : a ≤ b) : slice source a b ++ source.drop b = source.drop a := by
  have hd : source.drop b = (source.drop a).drop (b - a) := by
    rw [List.drop_drop]
    congr 1
    omega
  rw [slice, hd, List.take_append_drop]

theorem length_slice (h : b ≤ source.length) : (slice source a b).length = b - a := by
  rw [slice, List.length_take, List.length_drop]
  omega

theorem take_append_slice (h : a ≤ b) : source.take a ++ slice source a b = source.take b := by
  have hb : b = a + (b - a) := by omega
  rw [slice, hb, List.take_add, Nat.add_sub_cancel_left]

theorem slice_append_slice (h : a ≤ b) (hn : b ≤ n) :
    slice source a b ++ slice source b n = slice source a n := by
  refine (List.append_right_inj (source.take a)).mp ?_
  rw [← List.append_assoc, take_append_slice h, take_append_slice hn,
    take_append_slice (Nat.le_trans h hn)]

@[simp] theorem slice_self : slice source a a = [] := by simp [slice]

namespace Edit

variable {edits es : List Edit} {e : Edit} {cursor size i j : Nat} {c : Char}

/-- Edits from `cursor` on in the order of the text, none of which reaches into the next one. -/
def Spaced (size cursor : Nat) : List Edit → Prop
  | [] => cursor ≤ size
  | e :: es => cursor ≤ e.start ∧ e.start ≤ e.stop ∧ Spaced size e.stop es

theorem Spaced.le (h : Spaced size cursor es) : cursor ≤ size := by
  induction es generalizing cursor with
  | nil => exact h
  | cons e es ih => exact Nat.le_trans h.1 (Nat.le_trans h.2.1 (ih h.2.2))

theorem Spaced.of_mem (h : Spaced size cursor es) (he : e ∈ es) :
    cursor ≤ e.start ∧ e.start ≤ e.stop ∧ e.stop ≤ size := by
  induction es generalizing cursor with
  | nil => cases he
  | cons f es ih =>
    rcases List.mem_cons.mp he with rfl | he
    · exact ⟨h.1, h.2.1, h.2.2.le⟩
    · obtain ⟨hs, ht, hz⟩ := ih h.2.2 he
      have hf := h.2.1
      have hc := h.1
      exact ⟨by omega, ht, hz⟩

theorem spaced_keep (h : cursor ≤ size) : Spaced size cursor (keep size cursor es) := by
  induction es generalizing cursor with
  | nil => exact h
  | cons e es ih =>
    rw [keep]
    split
    · next he => exact ⟨he.1, he.2.1, ih he.2.2⟩
    · exact ih h

theorem keep_sublist : (keep size cursor es).Sublist es := by
  induction es generalizing cursor with
  | nil => exact List.Sublist.refl _
  | cons e es ih =>
    rw [keep]
    split
    · exact ih.cons_cons e
    · exact ih.cons e

/-- The edits that are carried out, in the order of the text. -/
def kept (edits : List Edit) (source : List Char) : List Edit :=
  keep source.length 0 (edits.mergeSort le)

theorem spaced_kept : Spaced source.length 0 (kept edits source) := spaced_keep (Nat.zero_le _)

theorem mem_of_mem_kept (h : e ∈ kept edits source) : e ∈ edits :=
  (List.mergeSort_perm edits le).mem_iff.mp (keep_sublist.subset h)

/-- An insertion has no extent, a replacement has one, and neither reaches beyond the text. -/
structure Fits (size : Nat) (e : Edit) : Prop where
  insertion : e.kind ≠ .replace → e.stop = e.start
  replacement : e.kind = .replace → e.start < e.stop
  within : e.stop ≤ size

theorem Fits.le (h : Fits size e) : e.start ≤ e.stop := by
  by_cases hk : e.kind = .replace
  · exact Nat.le_of_lt (h.replacement hk)
  · exact Nat.le_of_eq (h.insertion hk).symm

theorem le_iff {f : Edit} :
    le e f ↔ e.start < f.start ∨ e.start = f.start ∧ e.kind.rank ≤ f.kind.rank := by
  simp only [le, Bool.or_eq_true, Bool.and_eq_true, decide_eq_true_eq, beq_iff_eq]

theorem start_le_of_le {f : Edit} (h : le f e) : f.start ≤ e.start := by
  have h := le_iff.mp h
  omega

/-- A replacement that comes first in the order ends in front of whatever it does not overlap. -/
theorem stop_le_of_le {f : Edit} (he : Fits size e) (hk : f.kind = .replace) (h : le f e)
    (ha : f.stop ≤ e.start ∨ e.stop ≤ f.start) : f.stop ≤ e.start := by
  rcases ha with ha | ha
  · exact ha
  · have h := le_iff.mp h
    have hle := he.le
    by_cases hr : e.kind = .replace
    · have := he.replacement hr
      omega
    · have hrank : e.kind.rank < f.kind.rank := by
        rw [hk]
        cases hek : e.kind <;> simp_all [Kind.rank]
      omega

theorem trans_le {a b c : Edit} (hab : le a b) (hbc : le b c) : le a c := by
  rw [le_iff] at *
  omega

theorem total_le (a b : Edit) : le a b || le b a := by
  rw [Bool.or_eq_true, le_iff, le_iff]
  omega

theorem sorted_mergeSort (edits : List Edit) :
    (edits.mergeSort le).Pairwise fun a b => le a b :=
  @List.pairwise_mergeSort _ le (fun _ _ _ => trans_le) total_le edits

/-- An edit is carried out if no replacement but itself overlaps it. -/
theorem mem_keep (hsort : es.Pairwise fun a b => le a b) (hfit : ∀ f ∈ es, Fits size f)
    (he : e ∈ es) (hc : cursor ≤ e.start)
    (ha : ∀ f ∈ es, f.kind = .replace → f = e ∨ f.stop ≤ e.start ∨ e.stop ≤ f.start) :
    e ∈ keep size cursor es := by
  induction es generalizing cursor with
  | nil => cases he
  | cons f es ih =>
    have hfe := hfit e he
    obtain ⟨hle, hsort⟩ := List.pairwise_cons.mp hsort
    have htail (hc' : cursor ≤ e.start) (he : e ∈ es) : e ∈ keep size cursor es :=
      ih hsort (fun g hg => hfit g (List.mem_cons_of_mem _ hg)) he hc'
        fun g hg => ha g (List.mem_cons_of_mem _ hg)
    rw [keep]
    split
    · next hf =>
      rcases List.mem_cons.mp he with rfl | he
      · exact List.mem_cons_self
      · by_cases heq : f = e
        · exact heq ▸ List.mem_cons_self
        · refine List.mem_cons_of_mem _ (ih hsort (fun g hg => hfit g (List.mem_cons_of_mem _ hg))
            he ?_ fun g hg => ha g (List.mem_cons_of_mem _ hg))
          by_cases hk : f.kind = .replace
          · exact stop_le_of_le hfe hk (hle e he)
              ((ha f List.mem_cons_self hk).resolve_left heq)
          · rw [(hfit f List.mem_cons_self).insertion hk]
            exact start_le_of_le (hle e he)
    · next hf =>
      rcases List.mem_cons.mp he with rfl | he
      · exact absurd ⟨hc, hfe.le, hfe.within⟩ hf
      · exact htail hc he

theorem mem_kept (hfit : ∀ f ∈ edits, Fits source.length f) (he : e ∈ edits)
    (ha : ∀ f ∈ edits, f.kind = .replace → f = e ∨ f.stop ≤ e.start ∨ e.stop ≤ f.start) :
    e ∈ kept edits source := by
  have hmem {f : Edit} : f ∈ edits.mergeSort le ↔ f ∈ edits :=
    (List.mergeSort_perm edits le).mem_iff
  exact mem_keep (sorted_mergeSort edits) (fun f hf => hfit f (hmem.mp hf)) (hmem.mpr he)
    (Nat.zero_le _) fun f hf => ha f (hmem.mp hf)

/-- Of edits that are all carried out, those that fulfil `p` are carried out in their order. -/
theorem filter_kept {p : Edit → Bool} (hperm : (edits.filter p).Perm es)
    (hsorted : es.Pairwise fun a b => le b a = false) (hkept : ∀ e ∈ es, e ∈ kept edits source) :
    (kept edits source).filter p = es := by
  have hnodup : es.Nodup := hsorted.imp fun {a b} hle heq => by
    rw [heq, Bool.eq_false_iff] at hle
    exact hle (by simpa using total_le b b)
  have hsub : ((kept edits source).filter p).Sublist ((edits.mergeSort le).filter p) :=
    keep_sublist.filter p
  have hsort : ((edits.mergeSort le).filter p).Perm es :=
    ((List.mergeSort_perm edits le).filter p).trans hperm
  have hmem : ∀ e, e ∈ (kept edits source).filter p ↔ e ∈ es := by
    intro e
    refine ⟨fun he => hsort.mem_iff.mp (hsub.subset he), fun he => ?_⟩
    exact List.mem_filter.mpr ⟨hkept e he, (List.mem_filter.mp (hperm.mem_iff.mpr he)).2⟩
  have hkeep : ((kept edits source).filter p).Perm es :=
    (List.perm_ext_iff_of_nodup ((hsort.nodup_iff.mpr hnodup).sublist hsub) hnodup).mpr hmem
  have hone : es.Pairwise fun a b => le a b → le b a → a = b :=
    hsorted.imp fun hle _ hba => absurd hba (Bool.eq_false_iff.mp hle)
  refine hkeep.eq_of_pairwise (fun a b ha hb => ?_)
    ((sorted_mergeSort edits).sublist (List.filter_sublist.trans keep_sublist))
    (hsorted.imp fun {a b} hle => ?_)
  · exact hone.forall_of_forall_of_flip (fun _ _ _ _ => rfl)
      (hone.imp fun hab hba hab' => (hab hab' hba).symm) ((hmem a).mp ha) hb
  · have htotal := total_le a b
    rwa [hle, Bool.or_false] at htotal

/-- The text in front of an edit, what the edit writes, and the rest behind it. -/
theorem splice_drop_cons (hs : cursor ≤ e.start) (ht : e.start ≤ e.stop) :
    splice cursor (source.drop cursor) (e :: es)
      = slice source cursor e.start ++ (e.text.toList ++ splice e.stop (source.drop e.stop) es) := by
  have hrest : (source.drop cursor).drop (e.stop - cursor) = source.drop e.stop := by
    rw [List.drop_drop, Nat.add_sub_cancel' (Nat.le_trans hs ht)]
  simp only [splice, hrest, slice, List.append_assoc]

/-- What the result consists of from `cursor` on: offsets in the source, none for what is new. -/
def originsFrom (size cursor : Nat) : List Edit → List (Option Nat)
  | [] => (List.range' cursor (size - cursor)).map some
  | e :: es => (List.range' cursor (e.start - cursor)).map some
      ++ List.replicate e.text.toList.length none ++ originsFrom size e.stop es

/-- For each character of the edited text the offset of the character of the source that it is. -/
def origins (edits : List Edit) (source : List Char) : List (Option Nat) :=
  originsFrom source.length 0 (kept edits source)

theorem length_originsFrom (h : Spaced source.length cursor es) :
    (originsFrom source.length cursor es).length
      = (splice cursor (source.drop cursor) es).length := by
  induction es generalizing cursor with
  | nil => simp [originsFrom, splice]
  | cons e es ih =>
    obtain ⟨hs, ht, h⟩ := h
    have hfront : (slice source cursor e.start).length = e.start - cursor :=
      length_slice (Nat.le_trans ht h.le)
    simp only [originsFrom, splice_drop_cons hs ht, List.length_append, List.length_map,
      List.length_range', List.length_replicate, hfront, ih h, Nat.add_assoc]

theorem length_origins : (origins edits source).length = (apply edits source).length :=
  length_originsFrom spaced_kept

/-- Characters `c` in the stretches of the source that the edits take out. -/
def taken (source : List Char) (c : Char) (es : List Edit) : Nat :=
  (es.map fun e => (slice source e.start e.stop).count c).sum

/-- Characters `c` in what the edits write. -/
def written (c : Char) (es : List Edit) : Nat := (es.map fun e => e.text.toList.count c).sum

@[simp] theorem taken_nil : taken source c [] = 0 := rfl

@[simp] theorem taken_cons :
    taken source c (e :: es) = (slice source e.start e.stop).count c + taken source c es := rfl

@[simp] theorem written_nil : written c [] = 0 := rfl

@[simp] theorem written_cons : written c (e :: es) = e.text.toList.count c + written c es := rfl

theorem written_eq_zero (h : ∀ e ∈ es, c ∉ e.text.toList) : written c es = 0 := by
  induction es with
  | nil => rfl
  | cons e es ih =>
    have he := List.count_eq_zero.mpr (h e List.mem_cons_self)
    rw [written_cons, he, ih fun f hf => h f (List.mem_cons_of_mem _ hf)]

theorem taken_eq_zero : taken source c es = 0 ↔ ∀ e ∈ es, c ∉ slice source e.start e.stop := by
  induction es with
  | nil => simp
  | cons e es ih => simp [ih, List.count_eq_zero]

/-- Edits change the number of a character by what they write and what they take out. -/
theorem count_splice (h : Spaced source.length cursor es) :
    (splice cursor (source.drop cursor) es).count c + taken source c es
      = (source.drop cursor).count c + written c es := by
  induction es generalizing cursor with
  | nil => rfl
  | cons e es ih =>
    obtain ⟨hs, ht, h⟩ := h
    have hfront : (source.drop cursor).count c
        = (slice source cursor e.start).count c + (slice source e.start e.stop).count c
          + (source.drop e.stop).count c := by
      rw [← slice_append_drop hs, ← slice_append_drop ht]
      simp only [List.count_append, Nat.add_assoc]
    have htail := ih h
    simp only [splice_drop_cons hs ht, List.count_append, taken_cons, written_cons]
    omega

/-- An origin stands beside every edit, never inside one. -/
theorem mem_originsFrom (h : Spaced source.length cursor es)
    (hi : some i ∈ originsFrom source.length cursor es) :
    cursor ≤ i ∧ i < source.length ∧ ∀ e ∈ es, i < e.start ∨ e.stop ≤ i := by
  induction es generalizing cursor with
  | nil =>
    simp only [originsFrom, List.mem_map, List.mem_range'_1] at hi
    obtain ⟨k, hk, he⟩ := hi
    obtain rfl := Option.some.inj he
    exact ⟨by omega, by omega, nofun⟩
  | cons e es ih =>
    obtain ⟨hs, ht, h⟩ := h
    have hle := h.le
    simp only [originsFrom, List.mem_append, List.mem_map, List.mem_range'_1,
      List.mem_replicate] at hi
    rcases hi with (⟨k, hk, he⟩ | hi) | hi
    · obtain rfl := Option.some.inj he
      refine ⟨by omega, by omega, List.forall_mem_cons.mpr ⟨.inl (by omega), fun f hf => ?_⟩⟩
      have := h.of_mem hf
      exact .inl (by omega)
    · exact absurd hi.2 (by simp)
    · obtain ⟨hlo, hhi, hbeside⟩ := ih h hi
      exact ⟨by omega, hhi, List.forall_mem_cons.mpr ⟨.inr hlo, hbeside⟩⟩

/-- What stands beside every edit is an origin. -/
theorem mem_originsFrom_of_beside (hc : cursor ≤ i) (hi : i < source.length)
    (hbeside : ∀ e ∈ es, i < e.start ∨ e.stop ≤ i) : some i ∈ originsFrom source.length cursor es := by
  induction es generalizing cursor with
  | nil =>
    refine List.mem_map.mpr ⟨i, List.mem_range'_1.mpr ?_, rfl⟩
    omega
  | cons e es ih =>
    obtain ⟨he, hbeside⟩ := List.forall_mem_cons.mp hbeside
    simp only [originsFrom, List.mem_append]
    rcases he with he | he
    · refine .inl (.inl (List.mem_map.mpr ⟨i, List.mem_range'_1.mpr ?_, rfl⟩))
      omega
    · exact .inr (ih he hbeside)

/-- The characters that are kept are those that no edit takes out. -/
theorem mem_origins (hi : i < source.length) :
    some i ∈ origins edits source ↔ ∀ e ∈ kept edits source, i < e.start ∨ e.stop ≤ i :=
  ⟨fun h => (mem_originsFrom spaced_kept h).2.2, mem_originsFrom_of_beside (Nat.zero_le i) hi⟩

/-- A character with an origin is the one that stands there, and between the two of them the edits
that end in front of it account for every character `c`. -/
theorem splice_origin (h : Spaced source.length cursor es)
    (hj : (originsFrom source.length cursor es)[j]? = some (some i)) :
    (splice cursor (source.drop cursor) es)[j]? = source[i]? ∧
      ((splice cursor (source.drop cursor) es).take j).count c
          + taken source c (es.filter (·.stop ≤ i))
        = (slice source cursor i).count c + written c (es.filter (·.stop ≤ i)) := by
  induction es generalizing cursor j with
  | nil =>
    simp only [originsFrom, List.getElem?_map, Option.map_eq_some_iff] at hj
    obtain ⟨k, hk, he⟩ := hj
    obtain rfl := Option.some.inj he
    obtain ⟨hlt, rfl⟩ := List.getElem?_eq_some_iff.mp hk
    simp only [List.length_range'] at hlt
    simp only [List.getElem_range', Nat.one_mul, splice, List.getElem?_drop, slice,
      Nat.add_sub_cancel_left, List.filter_nil, taken_nil, written_nil, and_self]
  | cons e es ih =>
    obtain ⟨hs, ht, h⟩ := h
    have hlen : (slice source cursor e.start).length = e.start - cursor :=
      length_slice (Nat.le_trans ht h.le)
    rw [splice_drop_cons hs ht]
    simp only [originsFrom, List.append_assoc] at hj
    by_cases hfront : j < e.start - cursor
    · -- in front of the first edit, hence in front of all of them
      rw [List.getElem?_append_left (by simpa using hfront), List.getElem?_map,
        List.getElem?_range' hfront] at hj
      obtain rfl : cursor + 1 * j = i := Option.some.inj (Option.some.inj hj)
      have hnone : (e :: es).filter (·.stop ≤ cursor + 1 * j) = [] := by
        refine List.filter_eq_nil_iff.mpr fun f hf => ?_
        have hspaced : Spaced source.length e.start (e :: es) := ⟨Nat.le_refl _, ht, h⟩
        have := hspaced.of_mem hf
        simp only [decide_eq_true_eq]
        omega
      have hslice : slice source cursor (cursor + 1 * j)
          = (slice source cursor e.start).take j := by
        simp only [slice, List.take_take]
        congr 1
        omega
      rw [hnone, List.getElem?_append_left (by omega), List.take_append_of_le_length (by omega),
        hslice]
      refine ⟨?_, rfl⟩
      rw [slice, List.getElem?_take_of_lt (by omega), List.getElem?_drop, Nat.one_mul]
    · rw [List.getElem?_append_right (by simpa using hfront), List.length_map,
        List.length_range'] at hj
      by_cases hnew : j - (e.start - cursor) < e.text.toList.length
      · rw [List.getElem?_append_left (by simpa using hnew)] at hj
        rw [List.getElem?_replicate_of_lt hnew] at hj
        cases hj
      · rw [List.getElem?_append_right (by simpa using hnew), List.length_replicate] at hj
        obtain ⟨hchar, hcount⟩ := ih h hj
        have hi := (mem_originsFrom h (List.mem_of_getElem? hj)).1
        rw [List.filter_cons_of_pos (by simpa using hi)]
        have hslice : (slice source cursor i).count c
            = (slice source cursor e.start).count c + (slice source e.start e.stop).count c
              + (slice source e.stop i).count c := by
          rw [← slice_append_slice hs (Nat.le_trans ht hi), ← slice_append_slice ht hi]
          simp only [List.count_append, Nat.add_assoc]
        constructor
        · rw [List.getElem?_append_right (by omega), List.getElem?_append_right (by omega), hlen,
            hchar]
        · rw [List.take_append, List.take_append, hlen,
            List.take_of_length_le (l := slice source cursor e.start) (by omega),
            List.take_of_length_le (l := e.text.toList) (by omega)]
          simp only [List.count_append, taken_cons, written_cons]
          omega

/-- What is counted comes with the texts of edits and goes with their ranges. -/
theorem count_apply : (apply edits source).count c + taken source c (kept edits source)
    = source.count c + written c (kept edits source) := count_splice spaced_kept

/-- In front of a character there is what stood in front of it, but for the edits in between. -/
theorem count_take_apply (hj : (origins edits source)[j]? = some (some i)) :
    ((apply edits source).take j).count c
        + taken source c ((kept edits source).filter (·.stop ≤ i))
      = (source.take i).count c + written c ((kept edits source).filter (·.stop ≤ i)) :=
  (splice_origin spaced_kept hj).2

/-- Edits that write no `c` keep the number of `c` just if they take none out. -/
theorem count_apply_eq_iff (hw : ∀ e ∈ edits, c ∉ e.text.toList) :
    (apply edits source).count c = source.count c
      ↔ ∀ e ∈ kept edits source, c ∉ slice source e.start e.stop := by
  have hcount := @count_apply source edits c
  rw [written_eq_zero fun e he => hw e (mem_of_mem_kept he)] at hcount
  rw [← taken_eq_zero]
  omega

/-- Edits that write no `c` leave as many `c` in front of a character as there were just if those
that end in front of it take none out. -/
theorem count_take_apply_eq_iff (hw : ∀ e ∈ edits, c ∉ e.text.toList)
    (hj : (origins edits source)[j]? = some (some i)) :
    ((apply edits source).take j).count c = (source.take i).count c
      ↔ ∀ e ∈ kept edits source, e.stop ≤ i → c ∉ slice source e.start e.stop := by
  have hcount := count_take_apply (c := c) hj
  have hzero : written c ((kept edits source).filter (·.stop ≤ i)) = 0 :=
    written_eq_zero fun e he => hw e (mem_of_mem_kept (List.mem_filter.mp he).1)
  have hiff : taken source c ((kept edits source).filter (·.stop ≤ i)) = 0
      ↔ ∀ e ∈ kept edits source, e.stop ≤ i → c ∉ slice source e.start e.stop := by
    simp only [taken_eq_zero, List.mem_filter, decide_eq_true_eq, and_imp]
  rw [← hiff]
  omega

/-- Edits none of which takes out more `c` than it writes. -/
theorem taken_le_written (h : ∀ e ∈ es, (slice source e.start e.stop).count c ≤ e.text.toList.count c) :
    taken source c es ≤ written c es ∧ (taken source c es = written c es
      ↔ ∀ e ∈ es, e.text.toList.count c = (slice source e.start e.stop).count c) := by
  induction es with
  | nil => simp
  | cons e es ih =>
    obtain ⟨he, h⟩ := List.forall_mem_cons.mp h
    obtain ⟨hle, heq⟩ := ih h
    rw [List.forall_mem_cons, taken_cons, written_cons, ← heq]
    omega

/-- Such edits never lower the number of a character, and keep it just if each of them does. -/
theorem count_apply_of_le
    (h : ∀ e ∈ edits, (slice source e.start e.stop).count c ≤ e.text.toList.count c) :
    source.count c ≤ (apply edits source).count c ∧ ((apply edits source).count c = source.count c
      ↔ ∀ e ∈ kept edits source, e.text.toList.count c = (slice source e.start e.stop).count c) := by
  have hcount := @count_apply source edits c
  obtain ⟨hle, heq⟩ := @taken_le_written source (kept edits source) c
    fun e he => h e (mem_of_mem_kept he)
  rw [← heq]
  omega

theorem count_take_apply_of_le
    (h : ∀ e ∈ edits, (slice source e.start e.stop).count c ≤ e.text.toList.count c)
    (hj : (origins edits source)[j]? = some (some i)) :
    ((apply edits source).take j).count c = (source.take i).count c
      ↔ ∀ e ∈ kept edits source, e.stop ≤ i →
        e.text.toList.count c = (slice source e.start e.stop).count c := by
  have hcount := count_take_apply (c := c) hj
  obtain ⟨hle, heq⟩ := @taken_le_written source ((kept edits source).filter (·.stop ≤ i)) c
    fun e he => h e (mem_of_mem_kept (List.mem_filter.mp he).1)
  simp only [List.mem_filter, decide_eq_true_eq, and_imp] at heq
  rw [← heq]
  omega

/-- A character with an origin is the character of the source that stands there. -/
theorem getElem?_apply (hj : (origins edits source)[j]? = some (some i)) :
    (apply edits source)[j]? = source[i]? :=
  (splice_origin (c := '\n') spaced_kept hj).1

end Edit

end Scratchpad.Text

/-! ### Characters that a text does not have -/

namespace Scratchpad

open Text (Edit slice)

/-- A text without the character. -/
def Lacks (c : Char) (s : String) : Prop := c ∉ s.toList

variable {c : Char} {s t : String} {source : List Char} {edits : List Edit}

instance : Decidable (Lacks c s) := inferInstanceAs (Decidable (c ∉ s.toList))

theorem lacks_append : Lacks c (s ++ t) ↔ Lacks c s ∧ Lacks c t := by
  simp [Lacks, not_or]

theorem lacks_toString : Lacks c (toString s) ↔ Lacks c s := Iff.rfl

theorem lacks_join {ss : List String} (h : ∀ s ∈ ss, Lacks c s) : Lacks c (String.join ss) := by
  induction ss with
  | nil => exact List.not_mem_nil
  | cons s ss ih =>
    obtain ⟨hs, h⟩ := List.forall_mem_cons.mp h
    rw [String.join_cons]
    exact lacks_append.mpr ⟨hs, ih h⟩

theorem lacks_nat (hc : ¬c.isDigit) (n : Nat) : Lacks c (toString n) := by
  intro h
  have hmem : c ∈ Nat.toDigits 10 n := by simpa using h
  exact hc (Nat.isDigit_of_mem_toDigits (by decide) (by decide) hmem)

theorem lacks_lineBreaks {cs : List Char} (hc : c ∉ cs) : Lacks c (Edit.lineBreaks cs) := by
  rw [Lacks, Edit.lineBreaks, String.toList_ofList]
  exact fun hmem => hc ((List.mem_filter.mp hmem).1)

theorem lacks_slice (hc : c ∉ source) (start stop : Nat) : c ∉ slice source start stop :=
  fun hmem => hc (List.mem_of_mem_drop (List.mem_of_mem_take hmem))

/-- What goes leaves no character behind that was not there. -/
theorem lacks_blank (hc : c ∉ source) (start stop : Nat) : Lacks c (Edit.blank source start stop).text :=
  lacks_lineBreaks (lacks_slice hc start stop)

theorem Text.Edit.not_mem_splice {cursor : Nat} {rest : List Char} {es : List Edit} (hc : c ∉ rest)
    (hes : ∀ e ∈ es, Lacks c e.text) : c ∉ Edit.splice cursor rest es := by
  induction es generalizing cursor rest with
  | nil => exact hc
  | cons e es ih =>
    obtain ⟨he, hes⟩ := List.forall_mem_cons.mp hes
    simp only [Edit.splice, List.mem_append, not_or]
    exact ⟨⟨fun hmem => hc (List.mem_of_mem_take hmem), he⟩,
      ih (fun hmem => hc (List.mem_of_mem_drop hmem)) hes⟩

theorem Text.Edit.not_mem_apply (hc : c ∉ source) (hes : ∀ e ∈ edits, Lacks c e.text) :
    c ∉ Edit.apply edits source :=
  not_mem_splice hc fun e he => hes e (mem_of_mem_kept he)

end Scratchpad
