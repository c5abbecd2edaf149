import Scratchpad.Proofs.Text.Origin

/-!
Edits written down in the order in which they are carried out. Sorting them keeps those of one kind
at one place in their order, so that a list in order is the sorted list of any other with the same
edits at each place. Such lists are put together from those of neighbouring stretches of the text.
-/
namespace Scratchpad.Text.Edit

variable {edits es fs : List Edit} {e f : Edit} {a b c s size : Nat} {k : Kind} {source : List Char}

/-- Whether an edit has this place and this kind. -/
def isAt (s : Nat) (k : Kind) (e : Edit) : Bool := e.start == s && e.kind == k

theorem isAt_iff : isAt s k e ↔ e.start = s ∧ e.kind = k := by simp [isAt]

theorem le_of_isAt (he : isAt s k e) (hf : isAt s k f) : le e f := by
  obtain ⟨hs, hk⟩ := isAt_iff.mp he
  obtain ⟨hs', hk'⟩ := isAt_iff.mp hf
  simp [le, hs, hk, hs', hk']

/-- Edits that may stand in either order stand at one place and are of one kind. -/
theorem isAt_of_le (h : le e f) (h' : le f e) : isAt e.start e.kind f := by
  rw [le_iff] at h h'
  have hrank : f.kind.rank = e.kind.rank := by omega
  refine isAt_iff.mpr ⟨by omega, ?_⟩
  cases hf : f.kind <;> cases he : e.kind <;> simp_all [Kind.rank]

/-- Sorting leaves the order at each place as it was. -/
theorem filter_mergeSort : (edits.mergeSort le).filter (isAt s k) = edits.filter (isAt s k) := by
  have hsorted : (edits.filter (isAt s k)).Pairwise fun e f => le e f :=
    List.pairwise_iff_getElem.mpr fun i j hi hj _ => le_of_isAt
      (List.mem_filter.mp (List.getElem_mem hi)).2 (List.mem_filter.mp (List.getElem_mem hj)).2
  have hsub : (edits.filter (isAt s k)).Sublist (edits.mergeSort le) :=
    @List.sublist_mergeSort _ le _ (fun _ _ _ => trans_le) total_le _ hsorted List.filter_sublist
  have hlen := ((List.mergeSort_perm edits le).filter (isAt s k)).length_eq
  have hfilter := hsub.filter (isAt s k)
  rw [List.filter_filter] at hfilter
  simp only [Bool.and_self] at hfilter
  exact (hfilter.eq_of_length hlen.symm).symm

theorem mem_iff_of_filter (h : ∀ s k, es.filter (isAt s k) = fs.filter (isAt s k)) :
    e ∈ es ↔ e ∈ fs := by
  have hself : isAt e.start e.kind e := isAt_iff.mpr ⟨rfl, rfl⟩
  have hiff : e ∈ es.filter (isAt e.start e.kind) ↔ e ∈ fs.filter (isAt e.start e.kind) := by rw [h]
  simpa [List.mem_filter, hself] using hiff

/-- Lists in order are equal if they have the same edits at each place. -/
theorem eq_of_filter (he : es.Pairwise fun e f => le e f) (hf : fs.Pairwise fun e f => le e f)
    (h : ∀ s k, es.filter (isAt s k) = fs.filter (isAt s k)) : es = fs := by
  have hself (e : Edit) : le e e := by simpa using total_le e e
  induction es generalizing fs with
  | nil =>
    refine (List.eq_nil_iff_forall_not_mem.mpr fun e he => ?_).symm
    exact absurd ((mem_iff_of_filter h).mpr he) List.not_mem_nil
  | cons e es ih =>
    cases fs with
    | nil => exact absurd ((mem_iff_of_filter h).mp List.mem_cons_self) List.not_mem_nil
    | cons f fs =>
      obtain ⟨hes, he'⟩ := List.pairwise_cons.mp he
      obtain ⟨hfs, hf'⟩ := List.pairwise_cons.mp hf
      have hef : le e f := by
        rcases List.mem_cons.mp ((mem_iff_of_filter h).mpr List.mem_cons_self) with rfl | hmem
        · exact hself f
        · exact hes f hmem
      have hfe : le f e := by
        rcases List.mem_cons.mp ((mem_iff_of_filter h).mp List.mem_cons_self) with rfl | hmem
        · exact hself e
        · exact hfs e hmem
      have hfront := h e.start e.kind
      rw [List.filter_cons_of_pos (isAt_iff.mpr ⟨rfl, rfl⟩),
        List.filter_cons_of_pos (isAt_of_le hef hfe)] at hfront
      obtain rfl := (List.cons.inj hfront).1
      refine congrArg (e :: ·) (ih he' hf' fun s k => ?_)
      have hall := h s k
      rw [List.filter_cons, List.filter_cons] at hall
      split at hall
      · exact (List.cons.inj hall).2
      · exact hall

/-- Edits that start from `a` up to `b`. -/
def startsBetween (a b : Nat) (e : Edit) : Bool := a ≤ e.start && e.start < b

theorem startsBetween_iff : startsBetween a b e ↔ a ≤ e.start ∧ e.start < b := by
  simp [startsBetween]

theorem filter_startsBetween_append (h : es.Pairwise fun e f => e.start ≤ f.start) (hab : a ≤ b)
    (hbc : b ≤ c) : es.filter (startsBetween a b) ++ es.filter (startsBetween b c)
      = es.filter (startsBetween a c) := by
  induction es with
  | nil => rfl
  | cons e es ih =>
    obtain ⟨he, hes⟩ := List.pairwise_cons.mp h
    rcases Nat.lt_or_ge e.start b with hlt | hge
    · have hright : ¬ startsBetween b c e := fun hb => by
        have := startsBetween_iff.mp hb
        omega
      rw [List.filter_cons_of_neg hright]
      by_cases ha : startsBetween a b e
      · have hac : startsBetween a c e := by
          rw [startsBetween_iff] at ha ⊢
          omega
        rw [List.filter_cons_of_pos ha, List.filter_cons_of_pos hac, List.cons_append, ih hes]
      · have hac : ¬ startsBetween a c e := by
          rw [startsBetween_iff] at ha ⊢
          omega
        rw [List.filter_cons_of_neg ha, List.filter_cons_of_neg hac, ih hes]
    · -- behind the first edit from `b` on there are only such edits
      have hnone : (e :: es).filter (startsBetween a b) = [] := by
        refine List.filter_eq_nil_iff.mpr fun f hf hb => ?_
        have hb := startsBetween_iff.mp hb
        rcases List.mem_cons.mp hf with rfl | hf
        · omega
        · have := he f hf
          omega
      rw [hnone, List.nil_append]
      refine List.filter_congr fun f hf => ?_
      have hle : b ≤ f.start := by
        rcases List.mem_cons.mp hf with rfl | hf
        · exact hge
        · exact Nat.le_trans hge (he f hf)
      rw [Bool.eq_iff_iff, startsBetween_iff, startsBetween_iff]
      omega

/-- A list in order is what any list with the same edits at each place is sorted into. -/
theorem mergeSort_eq (hsorted : es.Pairwise fun e f => le e f)
    (h : ∀ s k, edits.filter (isAt s k) = es.filter (isAt s k)) : edits.mergeSort le = es :=
  eq_of_filter (sorted_mergeSort edits) hsorted fun s k => filter_mergeSort.trans (h s k)

/-- Of edits none of which reaches into the next one none is dropped. -/
theorem keep_spaced (h : Spaced size a es) : keep size a es = es := by
  induction es generalizing a with
  | nil => rfl
  | cons e es ih =>
    obtain ⟨hs, ht, hes⟩ := h
    rw [keep, if_pos ⟨hs, ht, hes.le⟩, ih hes]

/-- The source from `a` up to `b` with edits in order carried out in it. -/
def patch (source : List Char) (b : Nat) : Nat → List Edit → List Char
  | a, [] => slice source a b
  | a, e :: es => slice source a e.start ++ e.text.toList ++ patch source b e.stop es

theorem patch_append (hes : Spaced b a es) (hfs : Spaced c b fs) :
    patch source c a (es ++ fs) = patch source b a es ++ patch source c b fs := by
  induction es generalizing a with
  | nil =>
    cases fs with
    | nil => exact (slice_append_slice hes hfs).symm
    | cons f fs =>
      simp only [List.nil_append, patch, ← slice_append_slice hes hfs.1, List.append_assoc]
  | cons e es ih =>
    simp only [List.cons_append, patch, ih hes.2.2, List.append_assoc]

/-- Carrying out edits that are in order. -/
theorem splice_spaced (h : Spaced source.length a es) :
    splice a (source.drop a) es = patch source source.length a es := by
  induction es generalizing a with
  | nil => rw [splice, patch, slice, List.take_of_length_le (Nat.le_of_eq List.length_drop)]
  | cons e es ih =>
    obtain ⟨hs, ht, hes⟩ := h
    rw [splice_drop_cons hs ht, ih hes, patch, List.append_assoc]

/-- Edits from `a` to `b` in the order in which they are carried out. What begins there begins
before `b`, and nothing that began earlier ends at `a`. -/
structure Layout (a b : Nat) (es : List Edit) : Prop where
  spaced : Spaced b a es
  sorted : es.Pairwise fun e f => le e f
  fresh : ∀ e ∈ es, e.start = a → e.kind ≠ .close
  closes : ∀ e ∈ es, e.start = b → e.kind = .close

theorem Spaced.of_pairwise (hab : a ≤ b) (hes : es.Pairwise fun e f => e.stop ≤ f.start)
    (h : ∀ e ∈ es, a ≤ e.start ∧ e.start ≤ e.stop ∧ e.stop ≤ b) : Spaced b a es := by
  induction es generalizing a with
  | nil => exact hab
  | cons e es ih =>
    obtain ⟨he, hes⟩ := List.pairwise_cons.mp hes
    obtain ⟨⟨hs, ht, hb⟩, h⟩ := List.forall_mem_cons.mp h
    exact ⟨hs, ht, ih hb hes fun f hf => ⟨he f hf, (h f hf).2⟩⟩

theorem Spaced.append (hes : Spaced b a es) (hfs : Spaced c b fs) : Spaced c a (es ++ fs) := by
  induction es generalizing a with
  | nil =>
    cases fs with
    | nil => exact Nat.le_trans hes hfs
    | cons f fs => exact ⟨Nat.le_trans hes hfs.1, hfs.2⟩
  | cons e es ih => exact ⟨hes.1, hes.2.1, ih hes.2.2⟩

namespace Layout

theorem nil (h : a ≤ b) : Layout a b [] := ⟨h, .nil, nofun, nofun⟩

theorem append (h : Layout a b es) (h' : Layout b c fs) : Layout a c (es ++ fs) := by
  refine ⟨h.spaced.append h'.spaced, List.pairwise_append.mpr ⟨h.sorted, h'.sorted, ?_⟩, ?_, ?_⟩
  · intro e he f hf
    have hse := h.spaced.of_mem he
    have hsf := h'.spaced.of_mem hf
    rcases Nat.lt_or_eq_of_le (Nat.le_trans hse.2.1 (Nat.le_trans hse.2.2 hsf.1)) with hlt | heq
    · simp [le, hlt]
    · have hclose := h.closes e he (by omega)
      simp [le, heq, hclose, Kind.rank]
  · intro e he hs
    rcases List.mem_append.mp he with he | he
    · exact h.fresh e he hs
    · have hse := h'.spaced.of_mem he
      have hab := h.spaced.le
      exact h'.fresh e he (by omega)
  · intro e he hs
    rcases List.mem_append.mp he with he | he
    · have hse := h.spaced.of_mem he
      have hbc := h'.spaced.le
      exact h.closes e he (by omega)
    · exact h'.closes e he hs

theorem filter_end (h : Layout a b es) (hk : k ≠ .close) : es.filter (isAt b k) = [] := by
  refine List.filter_eq_nil_iff.mpr fun e he hat => hk ?_
  obtain ⟨hs, rfl⟩ := isAt_iff.mp hat
  exact h.closes e he hs

/-- At each place an edit at the end of a stretch may as well come first, unless it closes
something. -/
theorem filter_swap (h : Layout a e.start es) (hk : k ≠ .close) :
    [e].filter (isAt s k) ++ es.filter (isAt s k)
      = es.filter (isAt s k) ++ [e].filter (isAt s k) := by
  by_cases hat : isAt s k e
  · obtain ⟨rfl, rfl⟩ := isAt_iff.mp hat
    rw [h.filter_end hk, List.append_nil, List.nil_append]
  · rw [List.filter_eq_nil_iff.mpr (List.forall_mem_singleton.mpr hat), List.append_nil,
      List.nil_append]

/-- An edit that opens something or replaces a piece of the text, and what follows behind it. -/
theorem cons (h : Layout e.stop b es) (hk : e.kind = .opens ∨ e.kind = .replace ∧ e.start < e.stop)
    (hle : e.start ≤ e.stop) (hb : e.start < b) : Layout e.start b (e :: es) := by
  have hne : e.kind ≠ .close := by
    rcases hk with hk | ⟨hk, -⟩ <;> rw [hk] <;> nofun
  refine ⟨⟨Nat.le_refl _, hle, h.spaced⟩, List.pairwise_cons.mpr ⟨fun f hf => ?_, h.sorted⟩,
    List.forall_mem_cons.mpr ⟨fun _ => hne, fun f hf hs => ?_⟩,
    List.forall_mem_cons.mpr ⟨fun hs => by omega, h.closes⟩⟩
  · have hsf := h.spaced.of_mem hf
    rcases Nat.lt_or_eq_of_le (Nat.le_trans hle hsf.1) with hlt | heq
    · simp [le, hlt]
    · have hfk := h.fresh f hf (by omega)
      have hopens := hk.resolve_right fun hr => by omega
      cases hkf : f.kind <;> simp_all [le, Kind.rank]
  · have hsf := h.spaced.of_mem hf
    exact h.fresh f hf (by omega)

/-- What ends at the end of a stretch comes behind all that stands in it. -/
theorem concat (h : Layout a b es) (hab : a < b) (text : String) :
    Layout a b (es ++ [.closeAt b text]) := by
  refine ⟨h.spaced.append ⟨Nat.le_refl b, Nat.le_refl b, Nat.le_refl b⟩,
    List.pairwise_append.mpr ⟨h.sorted, List.pairwise_singleton _ _, fun e he f hf => ?_⟩,
    List.forall_mem_append.mpr ⟨h.fresh, List.forall_mem_singleton.mpr fun hs => ?_⟩,
    List.forall_mem_append.mpr ⟨h.closes, List.forall_mem_singleton.mpr fun _ => rfl⟩⟩
  · obtain rfl := List.mem_singleton.mp hf
    have hse := h.spaced.of_mem he
    rcases Nat.lt_or_eq_of_le (Nat.le_trans hse.2.1 hse.2.2) with hlt | heq
    · simp [le, closeAt, hlt]
    · simp [le, closeAt, heq, h.closes e he heq, Kind.rank]
  · exact absurd hs (Nat.ne_of_gt hab)

/-- A stretch with something at its beginning and something at its end. -/
theorem enclose (h : Layout a b es) (hab : a < b) (before behind : String) :
    Layout a b (.openAt a before :: (es ++ [.closeAt b behind])) :=
  Layout.cons (e := .openAt a before) (h.concat hab behind) (.inl rfl) (Nat.le_refl a) hab

theorem patch_append (h : Layout a b es) (h' : Layout b c fs) :
    patch source c a (es ++ fs) = patch source b a es ++ patch source c b fs :=
  Edit.patch_append h.spaced h'.spaced

theorem patch_enclose (h : Layout a b es) (before behind : String) :
    patch source b a (.openAt a before :: (es ++ [.closeAt b behind]))
      = before.toList ++ patch source b a es ++ behind.toList := by
  have hend : Spaced b b [.closeAt b behind] := ⟨Nat.le_refl b, Nat.le_refl b, Nat.le_refl b⟩
  rw [patch, openAt, slice_self, Edit.patch_append h.spaced hend]
  simp [patch, closeAt]

/-- Edits that are laid out are carried out in their order, in whatever order they were given. -/
theorem apply_eq (h : Layout 0 source.length es)
    (hperm : ∀ s k, edits.filter (isAt s k) = es.filter (isAt s k)) :
    apply edits source = patch source source.length 0 es := by
  have hsplice := splice_spaced h.spaced
  rw [List.drop_zero] at hsplice
  rw [apply, mergeSort_eq h.sorted hperm, keep_spaced h.spaced, hsplice]

end Layout

end Scratchpad.Text.Edit
