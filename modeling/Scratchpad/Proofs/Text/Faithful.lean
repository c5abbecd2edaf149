import Mathlib.Data.List.Induction
import Scratchpad.Proofs.Checked.Access
import Scratchpad.Proofs.Text.Layout

/-!
What becomes of edits, whatever they overlap. They are taken in the order of place, kind and turn,
each is carried out unless it starts in the last one that was, and the text outside those that were
carried out is the text that there was.
-/
namespace Scratchpad.Text.Edit

variable {edits es fs as bs : List Edit} {e f : Edit} {x y : Edit × Nat} {a b cursor i size : Nat}
  {source : List Char}

/-! ### The order -/

/-- Whether one of two edits with their turns comes first: by place, by kind, and by turn. -/
def Precedes (x y : Edit × Nat) : Prop :=
  x.1.start < y.1.start ∨ x.1.start = y.1.start ∧
    (x.1.kind.rank < y.1.kind.rank ∨ x.1.kind.rank = y.1.kind.rank ∧ x.2 < y.2)

/-- The edits in the order of place, kind and turn. -/
def Ordered (edits es : List Edit) : Prop :=
  ∃ turns : List (Edit × Nat),
    turns.Perm edits.zipIdx ∧ turns.Pairwise Precedes ∧ turns.map Prod.fst = es

theorem Precedes.asymm (h : Precedes x y) : ¬Precedes y x := by
  unfold Precedes at *
  omega

theorem precedes_of_le (h : List.zipIdxLE le x y) (hne : x.2 ≠ y.2) : Precedes x y := by
  unfold Precedes
  unfold List.zipIdxLE at h
  split at h
  · next hxy =>
    have hxy := le_iff.mp hxy
    split at h
    · have hturn := of_decide_eq_true h
      omega
    · next hyx =>
      rw [le_iff] at hyx
      omega
  · cases h

theorem ordered_mergeSort (edits : List Edit) : Ordered edits (edits.mergeSort le) := by
  have hperm := List.mergeSort_perm edits.zipIdx (List.zipIdxLE le)
  have hsorted := @List.pairwise_mergeSort _ (List.zipIdxLE le)
    (List.zipIdxLE_trans fun _ _ _ => trans_le) (List.zipIdxLE_total total_le) edits.zipIdx
  have hturns : (edits.zipIdx.map Prod.snd).Nodup := by
    rw [List.zipIdx_map_snd]
    exact List.nodup_range'
  have hturns := List.pairwise_map.mp ((hperm.map Prod.snd).nodup_iff.mpr hturns)
  refine ⟨_, hperm, ?_, List.mergeSort_zipIdx⟩
  exact (hsorted.and hturns).imp fun hxy => precedes_of_le hxy.1 hxy.2

theorem Ordered.unique (h : Ordered edits es) (h' : Ordered edits fs) : es = fs := by
  obtain ⟨xs, hxs, hsorted, rfl⟩ := h
  obtain ⟨ys, hys, hsorted', rfl⟩ := h'
  have heq : xs = ys := (hxs.trans hys.symm).eq_of_pairwise
    (fun x y _ _ hxy hyx => absurd hyx hxy.asymm) hsorted hsorted'
  rw [heq]

theorem ordered_iff : Ordered edits es ↔ es = edits.mergeSort le :=
  ⟨fun h => h.unique (ordered_mergeSort edits), fun h => h ▸ ordered_mergeSort edits⟩

/-! ### What is accepted -/

/-- Of edits looked at one after the other, one is accepted if it does not start in front of the end
of the last one accepted. -/
inductive Accepts : List Edit → List Edit → Prop where
  | nil : Accepts [] []
  | accept {es as : List Edit} {e : Edit} (h : Accepts es as)
      (he : ∀ a, as.getLast? = some a → a.stop ≤ e.start) : Accepts (es ++ [e]) (as ++ [e])
  | drop {es as : List Edit} {a e : Edit} (h : Accepts es as) (ha : as.getLast? = some a)
      (he : e.start < a.stop) : Accepts (es ++ [e]) as

/-- Where the edits that were carried out have left off. -/
def reach (cursor : Nat) (as : List Edit) : Nat := (as.getLast?.map Edit.stop).getD cursor

theorem reach_cons : reach cursor (e :: as) = reach e.stop as := by
  cases h : as.getLast? <;> simp [reach, List.getLast?_cons, h]

theorem keep_append : keep size cursor (es ++ fs)
    = keep size cursor es ++ keep size (reach cursor (keep size cursor es)) fs := by
  induction es generalizing cursor with
  | nil => rfl
  | cons e es ih =>
    rw [List.cons_append, keep, keep]
    split
    · rw [ih, List.cons_append, reach_cons]
    · exact ih

/-- An insertion has no extent, and no edit ends in front of its start or behind the text. -/
structure Proper (size : Nat) (e : Edit) : Prop where
  insertion : e.kind ≠ .replace → e.stop = e.start
  le : e.start ≤ e.stop
  within : e.stop ≤ size

theorem accepts_keep (h : ∀ e ∈ es, Proper size e) : Accepts es (keep size 0 es) := by
  induction es using List.reverseRecOn with
  | nil => exact .nil
  | append_singleton es e ih =>
    obtain ⟨hes, he⟩ := List.forall_mem_append.mp h
    have he := he e (List.mem_singleton_self e)
    rw [keep_append]
    by_cases hfree : reach 0 (keep size 0 es) ≤ e.start
    · rw [keep, if_pos ⟨hfree, he.le, he.within⟩, keep]
      refine .accept (ih hes) fun a ha => ?_
      rwa [reach, ha] at hfree
    · rw [keep, if_neg fun hin => hfree hin.1, keep, List.append_nil]
      cases hlast : (keep size 0 es).getLast? with
      | none =>
        rw [reach, hlast] at hfree
        exact absurd (Nat.zero_le e.start) hfree
      | some a =>
        rw [reach, hlast] at hfree
        exact .drop (ih hes) hlast (Nat.lt_of_not_le hfree)

theorem Accepts.eq_nil (h : Accepts [] as) : as = [] := by
  generalize hes : ([] : List Edit) = es at h
  cases h with
  | nil => rfl
  | accept | drop => simp at hes

/-- What was accepted before the last edit decides on it. -/
theorem Accepts.cases_snoc (h : Accepts (es ++ [e]) bs) : ∃ as, Accepts es as ∧
    ((∀ a, as.getLast? = some a → a.stop ≤ e.start) ∧ bs = as ++ [e] ∨
      (∃ a, as.getLast? = some a ∧ e.start < a.stop) ∧ bs = as) := by
  generalize hes : es ++ [e] = fs at h
  cases h with
  | nil => simp at hes
  | accept h he =>
    obtain ⟨rfl, hlast⟩ := List.append_inj' hes rfl
    obtain ⟨rfl, -⟩ := List.cons.inj hlast
    exact ⟨_, h, .inl ⟨he, rfl⟩⟩
  | drop h ha he =>
    obtain ⟨rfl, hlast⟩ := List.append_inj' hes rfl
    obtain ⟨rfl, -⟩ := List.cons.inj hlast
    exact ⟨_, h, .inr ⟨⟨_, ha, he⟩, rfl⟩⟩

theorem Accepts.unique (h : Accepts es as) (h' : Accepts es bs) : as = bs := by
  induction es using List.reverseRecOn generalizing as bs with
  | nil => rw [h.eq_nil, h'.eq_nil]
  | append_singleton es e ih =>
    obtain ⟨as, h, hlast⟩ := h.cases_snoc
    obtain ⟨bs, h', hlast'⟩ := h'.cases_snoc
    obtain rfl := ih h h'
    rcases hlast with ⟨hfree, rfl⟩ | ⟨⟨a, ha, hin⟩, rfl⟩ <;>
      rcases hlast' with ⟨hfree', rfl⟩ | ⟨⟨b, hb, hin'⟩, rfl⟩
    · rfl
    · exact absurd (hfree b hb) (Nat.not_le_of_lt hin')
    · exact absurd (hfree' a ha) (Nat.not_le_of_lt hin)
    · rfl

theorem mem_mergeSort : e ∈ edits.mergeSort le ↔ e ∈ edits :=
  (List.mergeSort_perm edits le).mem_iff

theorem accepts_iff (h : ∀ e ∈ edits, Proper source.length e) :
    Accepts (edits.mergeSort le) as ↔ as = kept edits source := by
  have hkept : Accepts (edits.mergeSort le) (kept edits source) :=
    accepts_keep fun e he => h e (mem_mergeSort.mp he)
  exact ⟨fun has => has.unique hkept, fun has => has ▸ hkept⟩

/-- Whether a character stands beside all edits. -/
def beside (es : List Edit) (i : Nat) : Bool := es.all fun e => i < e.start || e.stop ≤ i

theorem beside_iff : beside es i ↔ ∀ e ∈ es, i < e.start ∨ e.stop ≤ i := by
  simp [beside]

theorem range'_append_range' (hab : a ≤ b) (hbc : b ≤ size) :
    List.range' a (b - a) ++ List.range' b (size - b) = List.range' a (size - a) := by
  have hb : b = a + 1 * (b - a) := by omega
  have hsize : size - a = (b - a) + (size - b) := by omega
  rw [hsize, ← List.range'_append, ← hb]

/-- What stands beside the edits stays, once and in order. -/
theorem filterMap_originsFrom (h : Spaced size cursor es) :
    (originsFrom size cursor es).filterMap id
      = (List.range' cursor (size - cursor)).filter (beside es) := by
  induction es generalizing cursor with
  | nil =>
    have hall : (List.range' cursor (size - cursor)).filter (beside [])
        = List.range' cursor (size - cursor) := List.filter_eq_self.mpr fun _ _ => rfl
    rw [originsFrom, List.filterMap_map, hall]
    exact List.filterMap_some
  | cons e es ih =>
    obtain ⟨hs, ht, hes⟩ := h
    have hfront : (List.range' cursor (e.start - cursor)).filter (beside (e :: es))
        = List.range' cursor (e.start - cursor) := by
      refine List.filter_eq_self.mpr fun i hi => beside_iff.mpr fun f hf => ?_
      have hi := List.mem_range'_1.mp hi
      rcases List.mem_cons.mp hf with rfl | hf
      · exact .inl (by omega)
      · have hstart := (hes.of_mem hf).1
        exact .inl (by omega)
    have htaken : (List.range' e.start (e.stop - e.start)).filter (beside (e :: es)) = [] := by
      refine List.filter_eq_nil_iff.mpr fun i hi hbeside => ?_
      have hi := List.mem_range'_1.mp hi
      have hout := beside_iff.mp hbeside e List.mem_cons_self
      omega
    have hback : (List.range' e.stop (size - e.stop)).filter (beside (e :: es))
        = (List.range' e.stop (size - e.stop)).filter (beside es) := by
      refine List.filter_congr fun i hi => ?_
      have hi := List.mem_range'_1.mp hi
      have hstop : e.stop ≤ i := hi.1
      simp [beside, hstop]
    rw [← range'_append_range' (Nat.le_trans hs ht) hes.le, ← range'_append_range' hs ht,
      List.filter_append, List.filter_append, hfront, htaken, hback, ← ih hes, List.append_nil]
    simp [originsFrom, List.filterMap_append, List.filterMap_map]

/-! ### When none is dropped -/

/-- Edits in order that do not start within one another, and no two of which replace text from one
place on, lie one behind the other. -/
theorem spaced_of_apart (h : ∀ e ∈ es, Proper size e) (hsorted : es.Pairwise fun e f => le e f)
    (hin : ∀ e ∈ es, ∀ f ∈ es, ¬(e.start < f.start ∧ f.start < e.stop))
    (hone : es.Pairwise fun e f => e.kind = .replace → f.kind = .replace → e.start ≠ f.start) :
    Spaced size 0 es := by
  refine Spaced.of_pairwise (Nat.zero_le _) ?_ fun e he =>
    ⟨Nat.zero_le _, (h e he).le, (h e he).within⟩
  refine (hsorted.and hone).imp_of_mem fun {e f} he hf hef => ?_
  obtain ⟨hle, hone⟩ := hef
  have hle := le_iff.mp hle
  refine Decidable.byContradiction fun hover => ?_
  have hstart : e.start = f.start := by
    have := hin e he f hf
    omega
  have hreplace : e.kind = .replace := by
    refine Decidable.byContradiction fun hkind => ?_
    have := (h e he).insertion hkind
    omega
  have hreplace' : f.kind = .replace := by
    have hrank : e.kind.rank ≤ f.kind.rank := by omega
    rw [hreplace] at hrank
    cases hf : f.kind <;> simp [hf, Kind.rank] at hrank ⊢
  exact hone hreplace hreplace' hstart

theorem kept_of_apart (h : ∀ e ∈ edits, Proper source.length e)
    (hin : ∀ e ∈ edits, ∀ f ∈ edits, ¬(e.start < f.start ∧ f.start < e.stop))
    (hone : edits.Pairwise fun e f => e.kind = .replace → f.kind = .replace → e.start ≠ f.start) :
    kept edits source = edits.mergeSort le := by
  have hone' := ((List.mergeSort_perm edits le).pairwise_iff
    fun {e f} hef he hf heq => hef hf he heq.symm).mpr hone
  refine keep_spaced (spaced_of_apart (fun e he => h e (mem_mergeSort.mp he))
    (sorted_mergeSort edits) (fun e he f hf => ?_) hone')
  exact hin e (mem_mergeSort.mp he) f (mem_mergeSort.mp hf)

/-! ### The edited text -/

/-- The same edits given in another order, those of one kind at one place in the order they had. -/
def Rearranged (edits es : List Edit) : Prop :=
  ∀ s k, es.filter (isAt s k) = edits.filter (isAt s k)

theorem Rearranged.apply_eq (h : Rearranged edits es) : apply es source = apply edits source := by
  have hsort : es.mergeSort le = edits.mergeSort le :=
    mergeSort_eq (sorted_mergeSort edits) fun s k => (h s k).trans filter_mergeSort.symm
  rw [apply, hsort, apply]

/-- What it means that edits are carried out. -/
structure Faithful (edits : List Edit) (source : List Char) : Prop where
  /-- They are taken in the order of place, kind and turn. -/
  ordered : ∀ es, Ordered edits es ↔ es = edits.mergeSort le
  /-- One is accepted if it does not start in front of the end of the last one accepted. -/
  accepted : ∀ as, Accepts (edits.mergeSort le) as ↔ as = kept edits source
  /-- The text of each accepted one takes the place of its range, and every piece is there. -/
  replaced : Checked.carryOut edits source = some (apply edits source) ∧
    apply edits source = patch source source.length 0 (kept edits source)
  /-- The characters beside the accepted ones stay, once and in order. -/
  outside : (origins edits source).length = (apply edits source).length ∧
    (origins edits source).filterMap id
      = (List.range source.length).filter (beside (kept edits source)) ∧
    ∀ j i : Nat, (origins edits source)[j]? = some (some i) →
      (apply edits source)[j]? = source[i]?
  /-- Line breaks come with the accepted texts and go with the accepted ranges. -/
  breaks : (apply edits source).count '\n' + taken source '\n' (kept edits source)
    = source.count '\n' + written '\n' (kept edits source)
  /-- None is dropped if none starts within another one and no two replacements start together. -/
  complete : (∀ e ∈ edits, ∀ f ∈ edits, ¬(e.start < f.start ∧ f.start < e.stop)) →
    (edits.Pairwise fun e f => e.kind = .replace → f.kind = .replace → e.start ≠ f.start) →
    kept edits source = edits.mergeSort le
  /-- Edits of different kinds or at different places may be given in any order. -/
  rearranged : ∀ es, Rearranged edits es → apply es source = apply edits source

theorem apply_faithful (h : ∀ e ∈ edits, Proper source.length e) : Faithful edits source where
  ordered _ := ordered_iff
  accepted _ := accepts_iff h
  replaced := ⟨Checked.carryOut_eq edits source, splice_spaced spaced_kept⟩
  outside := by
    refine ⟨length_origins, ?_, fun j i => getElem?_apply⟩
    rw [origins, filterMap_originsFrom spaced_kept, Nat.sub_zero, List.range_eq_range']
  breaks := count_apply
  complete := kept_of_apart h
  rearranged _ h := h.apply_eq

/-- A replacement that starts in another one is dropped; what closes at a place comes before what is
replaced from there on. -/
theorem apply_faithful_of_overlap :
    let source := "a\nbc".toList
    let edits : List Edit :=
      [⟨1, 3, .replace, "X"⟩, ⟨2, 4, .replace, "Y"⟩, .openAt 0 "(", .closeAt 1 ")"]
    (∀ e ∈ edits, Proper source.length e) ∧
      Accepts (edits.mergeSort le) [.openAt 0 "(", .closeAt 1 ")", ⟨1, 3, .replace, "X"⟩] ∧
      apply edits source = "(a)Xc".toList ∧ (apply edits source).count '\n' + 1 = 1 + 0 := by
  intro source edits
  have hproper : ∀ e ∈ edits, Proper source.length e := by
    refine List.forall_mem_cons.mpr ⟨⟨nofun, by decide, by decide⟩, List.forall_mem_cons.mpr
      ⟨⟨nofun, by decide, by decide⟩, List.forall_mem_cons.mpr ⟨?_, List.forall_mem_singleton.mpr ?_⟩⟩⟩
    · exact ⟨fun _ => rfl, by decide, by decide⟩
    · exact ⟨fun _ => rfl, by decide, by decide⟩
  have hfaithful := apply_faithful hproper
  have hsorted := (hfaithful.ordered [.openAt 0 "(", .closeAt 1 ")", ⟨1, 3, .replace, "X"⟩,
    ⟨2, 4, .replace, "Y"⟩]).mp ⟨[(.openAt 0 "(", 2), (.closeAt 1 ")", 3), (⟨1, 3, .replace, "X"⟩, 0),
      (⟨2, 4, .replace, "Y"⟩, 1)], by decide, by simp [Precedes, openAt, closeAt, Kind.rank], rfl⟩
  have hkept : kept edits source = [.openAt 0 "(", .closeAt 1 ")", ⟨1, 3, .replace, "X"⟩] := by
    rw [kept, ← hsorted]
    decide
  have hbreaks := hfaithful.breaks
  refine ⟨hproper, (hfaithful.accepted _).mpr hkept.symm, ?_, ?_⟩
  · rw [hfaithful.replaced.2, hkept]
    decide
  · rw [hkept] at hbreaks
    exact hbreaks

end Scratchpad.Text.Edit
