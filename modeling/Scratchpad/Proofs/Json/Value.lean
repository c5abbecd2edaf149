import Scratchpad.Proofs.Json.Text

/-!
What becomes of a value on its way through a text: it comes back if its numbers do and it is not
nested too deep. A value that was read holds only numbers that were read, and its fields are put in
order.
-/
namespace Scratchpad.Json

open Decimal (Binary64)

variable {text : String} {t : Tree} {n k : Nat} {j v : Json} {p : Json → Prop} {m : Mark}
  {cs r : List Char} {ms : List Mark} {key : String} {fields done : List (String × Json)}

/-! ### Back from the tree -/

/-- Whole numbers fit 64 bits. -/
def Ranged : Json → Prop
  | .int n => Fits n
  | _ => True

/-- The double that a text is read as. -/
def doubleOf (text : String) : Option Binary64 :=
  match numberOf text with
  | some (.float x) => some x
  | _ => none

theorem numberOf_of_doubleOf {x : Binary64} (h : doubleOf text = some x) :
    numberOf text = some (.float x) := by
  unfold doubleOf at h
  split at h
  · next hn =>
    cases h
    exact hn
  · cases h

/-- The text of a double is read as the same double. -/
def Repeats : Json → Prop
  | .float x => doubleOf (Json.float x).render = some x
  | _ => True

instance : DecidablePred Repeats
  | .float _ => inferInstanceAs (Decidable (_ = _))
  | .null | .bool _ | .int _ | .string _ | .array _ | .object _ => isTrue trivial

/-- The text of a scalar is read as this scalar. -/
def ReadsBack (j : Json) : Prop := Ranged j ∧ Repeats j

/-- Only doubles may fail to repeat. -/
theorem readsBack_of_ranged (j : Json) (h : Ranged j) (hx : ∀ x, j ≠ .float x) : ReadsBack j := by
  refine ⟨h, ?_⟩
  cases j with
  | float x => exact absurd rfl (hx x)
  | _ => trivial

/-- The text of a double that is not finite is no number. -/
theorem isFinite_of_doubleOf {x y : Binary64} (h : doubleOf (Json.float x).render = some y) :
    x.isFinite = true := by
  refine Classical.byContradiction fun hx => ?_
  rw [render, if_neg hx] at h
  cases h

theorem ReadsBack.legible (h : ReadsBack j) : Legible j := by
  cases j with
  | float x => exact isFinite_of_doubleOf h.2
  | _ => trivial

theorem value?_scalar (hs : j.isScalar) (h : ReadsBack j) : j.tree.value? k = some j := by
  cases j with
  | int n => rw [tree, Tree.value?, numberOf_eq (readNumeral_int n), value_int h.1]
  | float x => exact numberOf_of_doubleOf h.2
  | array _ => cases hs
  | object _ => cases hs
  | _ => rfl

theorem values?_tree {vs : List Json} (h : ∀ v ∈ vs, v.tree.value? k = some v) :
    Tree.values? k (treeItems vs) = some vs := by
  induction vs with
  | nil => rfl
  | cons v vs ih =>
    rw [treeItems, Tree.values?, h v (List.mem_cons_self ..),
      ih fun w hw => h w (List.mem_cons_of_mem _ hw)]
    rfl

theorem fields?_tree (h : ∀ e ∈ fields, e.2.tree.value? k = some e.2) :
    Tree.fields? k (treeFields fields) = some fields := by
  induction fields with
  | nil => rfl
  | cons e es ih =>
    rw [treeFields, Tree.fields?, h e (List.mem_cons_self ..),
      ih fun f hf => h f (List.mem_cons_of_mem _ hf)]
    rfl

/-- Room for one level more than there are. -/
theorem value?_tree (h : Within ReadsBack n j) : j.tree.value? (n + 1) = some j := by
  induction h with
  | scalar hs h => exact value?_scalar hs h
  | array _ ih => rw [tree, Tree.value?, values?_tree ih, Option.map_some]
  | object _ ih => rw [tree, Tree.value?, fields?_tree ih, Option.map_some]

theorem mem_of_values? {vs ws : List Json} (h : Tree.values? k (treeItems vs) = some ws)
    (hv : v ∈ vs) : ∃ w, v.tree.value? k = some w := by
  induction vs generalizing ws with
  | nil => cases hv
  | cons u vs ih =>
    rw [treeItems, Tree.values?] at h
    rcases Option.bind_eq_some_iff.mp h with ⟨w, hw, h⟩
    rcases Option.bind_eq_some_iff.mp h with ⟨ws', hws, -⟩
    rcases List.mem_cons.mp hv with rfl | hv
    · exact ⟨w, hw⟩
    · exact ih hws hv

theorem mem_of_fields? {es fs : List (String × Json)} {e : String × Json}
    (h : Tree.fields? k (treeFields es) = some fs) (he : e ∈ es) :
    ∃ w, e.2.tree.value? k = some w := by
  induction es generalizing fs with
  | nil => cases he
  | cons f es ih =>
    rw [treeFields, Tree.fields?] at h
    rcases Option.bind_eq_some_iff.mp h with ⟨key, -, h⟩
    rcases Option.bind_eq_some_iff.mp h with ⟨w, hw, h⟩
    rcases Option.bind_eq_some_iff.mp h with ⟨fs', hfs, -⟩
    rcases List.mem_cons.mp he with rfl | he
    · exact ⟨w, hw⟩
    · exact ih hfs he

/-- A tree has a value only if it is not nested too deep. -/
theorem within_of_value? (h : Within p n j) (hv : j.tree.value? (k + 1) = some v) :
    Within p k j := by
  induction h generalizing k v with
  | scalar hs h => exact .scalar hs h
  | array _ ih =>
    cases k with
    | zero => cases hv
    | succ k =>
      rw [tree, Tree.value?] at hv
      rcases Option.map_eq_some_iff.mp hv with ⟨ws, hws, -⟩
      refine .array fun v hv => ?_
      rcases mem_of_values? hws hv with ⟨w, hw⟩
      exact ih v hv hw
  | object _ ih =>
    cases k with
    | zero => cases hv
    | succ k =>
      rw [tree, Tree.value?] at hv
      rcases Option.map_eq_some_iff.mp hv with ⟨ws, hws, -⟩
      refine .object fun e he => ?_
      rcases mem_of_fields? hws he with ⟨w, hw⟩
      exact ih e he hw

/-- A value whose scalars come back is read from its text if and only if it is not nested too
deep. -/
theorem read_render_iff (h : Within ReadsBack n j) :
    Json.read j.render = some j ↔ Within ReadsBack 127 j := by
  rw [read_render (h.mono (fun _ => ReadsBack.legible) (Nat.le_refl n))]
  exact ⟨fun hv => within_of_value? h hv, fun h => value?_tree h⟩

/-! ### What was read -/

/-- The numbers of a tree are numbers that numerals stand for. -/
inductive Tree.Sound : Tree → Prop where
  | null : Sound .null
  | bool {b : Bool} : Sound (.bool b)
  | number {v : Option Json} (h : ∀ j, v = some j → IsNumber j) : Sound (.number v)
  | string {s : Option String} : Sound (.string s)
  | array {items : List Tree} (h : ∀ t ∈ items, Sound t) : Sound (.array items)
  | object {fields : List (Option String × Tree)} (h : ∀ e ∈ fields, Sound e.2) :
    Sound (.object fields)

def Mark.Sound : Mark → Prop
  | .scalar v => v.Sound
  | _ => True

def Frame.Sound : Frame → Prop
  | .array items => ∀ t ∈ items, t.Sound
  | .object fields _ => ∀ e ∈ fields, e.2.Sound

def Parse.Sound : Parse → Prop
  | .value stack | .firstItem stack | .firstKey stack => ∀ f ∈ stack, f.Sound
  | .key fields stack | .colon fields _ stack =>
    (∀ e ∈ fields, e.2.Sound) ∧ ∀ f ∈ stack, f.Sound
  | .behind v stack => v.Sound ∧ ∀ f ∈ stack, f.Sound

theorem sound_ite {b : Prop} [Decidable b] {x y : Option (Mark × Nat)}
    (hx : ∀ m k, x = some (m, k) → m.Sound) (hy : ∀ m k, y = some (m, k) → m.Sound) :
    ∀ m k, (if b then x else y) = some (m, k) → m.Sound := by
  split
  · exact hx
  · exact hy

theorem sound_map {α : Type} {o : Option α} {f : α → Mark × Nat} (hf : ∀ a, (f a).1.Sound) :
    ∀ m k, o.map f = some (m, k) → m.Sound := by
  intro m k h
  obtain ⟨a, -, he⟩ := Option.map_eq_some_iff.mp h
  have hs := hf a
  rwa [he] at hs

theorem sound_readMark (c : Char) (r : List Char) :
    ∀ m k, readMark c r = some (m, k) → m.Sound := by
  have hmark {mark : Mark} {length : Nat} (hs : mark.Sound) :
      ∀ m k, some (mark, length) = some (m, k) → m.Sound := by
    rintro _ _ ⟨⟩
    exact hs
  unfold readMark
  refine sound_ite (hmark trivial) ?_
  refine sound_ite (hmark trivial) ?_
  refine sound_ite (hmark trivial) ?_
  refine sound_ite (hmark trivial) ?_
  refine sound_ite (hmark trivial) ?_
  refine sound_ite (hmark trivial) ?_
  refine sound_ite (sound_map fun _ => .string) ?_
  refine sound_ite (sound_map fun _ => .number fun _ => isNumber_of_value) ?_
  refine sound_ite (hmark .null) (sound_ite (hmark .bool) (sound_ite (hmark .bool) ?_))
  rintro _ _ ⟨⟩

theorem sound_readMarks {done : List Mark} (hd : ∀ m ∈ done, m.Sound)
    (h : readMarks done cs = some ms) : ∀ m ∈ ms, m.Sound := by
  fun_induction readMarks done cs with
  | case1 done =>
    cases h
    exact hd
  | case2 done c r hb ih => exact ih hd h
  | case3 done c r hb m n hm ih =>
    refine ih (fun m' hm' => ?_) h
    rcases List.mem_cons.mp hm' with rfl | hm'
    · exact sound_readMark c r _ _ hm
    · exact hd m' hm'
  | case4 => cases h

theorem sound_start {stack : List Frame} {out : Parse} (hs : ∀ f ∈ stack, f.Sound)
    (hm : m.Sound) (h : Parse.start stack m = some out) : out.Sound := by
  cases m with
  | scalar v =>
    cases h
    exact ⟨hm, hs⟩
  | openArray =>
    cases h
    exact hs
  | openObject =>
    cases h
    exact hs
  | _ => cases h

theorem sound_step {s out : Parse} (hs : s.Sound) (hm : m.Sound) (h : s.step m = some out) :
    out.Sound := by
  unfold Parse.step at h
  split at h
  · exact sound_start hs hm h
  · cases h
    exact ⟨.array nofun, hs⟩
  · next stack _ _ =>
    have hf : Frame.Sound (.array []) := nofun
    exact sound_start (List.forall_mem_cons.mpr ⟨hf, hs⟩) hm h
  · cases h
    exact ⟨.object nofun, hs⟩
  · cases h
    exact ⟨nofun, hs⟩
  · cases h
    exact hs
  · cases h
    exact List.forall_mem_cons.mpr hs
  · cases h
    rcases List.forall_mem_cons.mp hs.2 with ⟨hf, hstack⟩
    exact List.forall_mem_cons.mpr ⟨List.forall_mem_cons.mpr ⟨hs.1, hf⟩, hstack⟩
  · cases h
    rcases List.forall_mem_cons.mp hs.2 with ⟨hf, hstack⟩
    refine ⟨.array fun t ht => ?_, hstack⟩
    exact List.forall_mem_cons.mpr ⟨hs.1, hf⟩ t (List.mem_reverse.mp ht)
  · cases h
    rcases List.forall_mem_cons.mp hs.2 with ⟨hf, hstack⟩
    refine ⟨fun e he => ?_, hstack⟩
    rcases List.mem_cons.mp he with rfl | he
    · exact hs.1
    · exact hf e he
  · cases h
    rcases List.forall_mem_cons.mp hs.2 with ⟨hf, hstack⟩
    refine ⟨.object fun e he => ?_, hstack⟩
    rcases List.mem_cons.mp (List.mem_reverse.mp he) with rfl | he
    · exact hs.1
    · exact hf e he
  · cases h

theorem sound_fold {s out : Parse} (hs : s.Sound) (hm : ∀ m ∈ ms, m.Sound)
    (h : ms.foldlM Parse.step s = some out) : out.Sound := by
  induction ms generalizing s with
  | nil =>
    cases h
    exact hs
  | cons m ms ih =>
    rw [List.foldlM_cons] at h
    rcases Option.bind_eq_some_iff.mp h with ⟨s', hs', h⟩
    rcases List.forall_mem_cons.mp hm with ⟨hm, hms⟩
    exact ih (sound_step hs hm hs') hms h

theorem sound_of_read (h : Tree.read text = some t) : t.Sound := by
  unfold Tree.read at h
  rcases Option.bind_eq_some_iff.mp h with ⟨ms, hms, h⟩
  rcases Option.bind_eq_some_iff.mp h with ⟨out, hout, h⟩
  have hsound : out.Sound := by
    have hnil : ∀ m ∈ ([] : List Mark), m.Sound := List.forall_mem_nil _
    have hvalue : Parse.Sound (.value []) := List.forall_mem_nil _
    refine sound_fold hvalue (fun m hm => ?_) hout
    exact sound_readMarks hnil hms m (List.mem_reverse.mp hm)
  split at h
  · cases h
    exact hsound.1
  · cases h

theorem all_of_values? {P : Json → Prop} {ts : List Tree} {vs : List Json}
    (h : ∀ t ∈ ts, ∀ v, t.value? k = some v → P v) (hv : Tree.values? k ts = some vs) :
    ∀ v ∈ vs, P v := by
  induction ts generalizing vs with
  | nil =>
    cases hv
    nofun
  | cons t ts ih =>
    rw [Tree.values?] at hv
    rcases Option.bind_eq_some_iff.mp hv with ⟨w, hw, hv⟩
    rcases Option.bind_eq_some_iff.mp hv with ⟨ws, hws, hv⟩
    cases hv
    rcases List.forall_mem_cons.mp h with ⟨h, hs⟩
    exact List.forall_mem_cons.mpr ⟨h w hw, ih hs hws⟩

theorem all_of_fields? {P : Json → Prop} {ts : List (Option String × Tree)}
    (h : ∀ e ∈ ts, ∀ v, e.2.value? k = some v → P v) (hv : Tree.fields? k ts = some fields) :
    ∀ e ∈ fields, P e.2 := by
  induction ts generalizing fields with
  | nil =>
    cases hv
    nofun
  | cons e ts ih =>
    rw [Tree.fields?] at hv
    rcases Option.bind_eq_some_iff.mp hv with ⟨key, -, hv⟩
    rcases Option.bind_eq_some_iff.mp hv with ⟨w, hw, hv⟩
    rcases Option.bind_eq_some_iff.mp hv with ⟨ws, hws, hv⟩
    cases hv
    rcases List.forall_mem_cons.mp h with ⟨h, hs⟩
    exact List.forall_mem_cons.mpr ⟨h w hw, ih hs hws⟩

/-- The value of a sound tree is nested no deeper than there is room. -/
theorem Tree.Sound.within (h : t.Sound) (hv : t.value? (k + 1) = some j) : Within Ranged k j := by
  induction h generalizing k j with
  | null =>
    cases hv
    exact .scalar rfl trivial
  | bool =>
    cases hv
    exact .scalar rfl trivial
  | number h =>
    cases h j hv with
    | int h => exact .scalar rfl h
    | float => exact .scalar rfl trivial
  | string =>
    rcases Option.map_eq_some_iff.mp hv with ⟨s, -, rfl⟩
    exact .scalar rfl trivial
  | array _ ih =>
    cases k with
    | zero => cases hv
    | succ k =>
      rcases Option.map_eq_some_iff.mp hv with ⟨vs, hvs, rfl⟩
      exact .array (all_of_values? (fun t ht v hv => ih t ht hv) hvs)
  | object _ ih =>
    cases k with
    | zero => cases hv
    | succ k =>
      rcases Option.map_eq_some_iff.mp hv with ⟨fs, hfs, rfl⟩
      exact .object (all_of_fields? (fun e he v hv => ih e he hv) hfs)

/-- What is read is nested less deep than the limit, and its whole numbers fit 64 bits. -/
theorem within_of_read (h : Json.read text = some j) : Within Ranged 127 j := by
  rcases Option.bind_eq_some_iff.mp h with ⟨t, ht, hv⟩
  exact (sound_of_read ht).within hv

/-! ### The order of fields -/

/-- Fields stand in the order of their keys, each of which occurs once. -/
inductive Ordered : Json → Prop where
  | scalar {j : Json} (hs : j.isScalar) : Ordered j
  | array {items : List Json} (h : ∀ v ∈ items, Ordered v) : Ordered (.array items)
  | object {fields : List (String × Json)} (hk : fields.Pairwise (·.1 < ·.1))
    (h : ∀ e ∈ fields, Ordered e.2) : Ordered (.object fields)

theorem lt_of_not_lt {a b : String} (hne : a ≠ b) (h : ¬ a < b) : b < a := by
  refine Classical.byContradiction fun hn => hne ?_
  exact String.le_antisymm (String.not_lt.mp hn) (String.not_lt.mp h)

theorem mem_insertField {e : String × Json} (h : e ∈ insertField key v fields) :
    e = (key, v) ∨ e ∈ fields := by
  induction fields with
  | nil => exact .inl (List.mem_singleton.mp h)
  | cons f fields ih =>
    rw [insertField] at h
    split at h
    · rcases List.mem_cons.mp h with rfl | h
      · exact .inl rfl
      · exact .inr (List.mem_cons_of_mem _ h)
    · split at h
      · rcases List.mem_cons.mp h with rfl | h
        · exact .inl rfl
        · exact .inr h
      · rcases List.mem_cons.mp h with rfl | h
        · exact .inr (List.mem_cons_self ..)
        · exact (ih h).imp id (List.mem_cons_of_mem _)

theorem pairwise_insertField (h : fields.Pairwise (·.1 < ·.1)) :
    (insertField key v fields).Pairwise (·.1 < ·.1) := by
  induction fields with
  | nil => exact List.pairwise_singleton ..
  | cons f fields ih =>
    rcases f with ⟨k, w⟩
    rcases List.pairwise_cons.mp h with ⟨hk, hs⟩
    rw [insertField]
    split
    · next he =>
      subst he
      exact List.pairwise_cons.mpr ⟨hk, hs⟩
    · next hne =>
      split
      · next hlt =>
        refine List.pairwise_cons.mpr ⟨fun e he => ?_, h⟩
        rcases List.mem_cons.mp he with rfl | he
        · exact hlt
        · exact String.lt_trans hlt (hk e he)
      · next hlt =>
        refine List.pairwise_cons.mpr ⟨fun e he => ?_, ih hs⟩
        rcases mem_insertField he with rfl | he
        · exact lt_of_not_lt hne hlt
        · exact hk e he

/-- A field with the greatest key comes last. -/
theorem insertField_eq_append (h : ∀ e ∈ fields, e.1 < key) :
    insertField key v fields = fields ++ [(key, v)] := by
  induction fields with
  | nil => rfl
  | cons f fields ih =>
    rcases List.forall_mem_cons.mp h with ⟨hf, hs⟩
    have hne : key ≠ f.1 := by
      rintro rfl
      exact String.lt_irrefl _ hf
    rw [insertField, if_neg hne, if_neg (String.lt_asymm hf), ih hs]
    rfl

theorem normalizeItems_eq_map {vs : List Json} : normalizeItems vs = vs.map normalize := by
  induction vs with
  | nil => rfl
  | cons v vs ih => rw [normalizeItems, ih, List.map_cons]

theorem normalizeFields_of_ordered (hk : (done ++ fields).Pairwise (·.1 < ·.1))
    (h : ∀ e ∈ fields, e.2.normalize = e.2) : normalizeFields done fields = done ++ fields := by
  induction fields generalizing done with
  | nil => rw [normalizeFields, List.append_nil]
  | cons f fields ih =>
    rcases List.forall_mem_cons.mp h with ⟨hf, hs⟩
    have hlast : ∀ e ∈ done, e.1 < f.1 :=
      fun e he => (List.pairwise_append.mp hk).2.2 e he f (List.mem_cons_self ..)
    have happend : done ++ f :: fields = done ++ [f] ++ fields := by simp
    rw [happend] at hk ⊢
    rw [normalizeFields, hf, insertField_eq_append hlast, ih hk hs]

theorem normalize_of_ordered (h : Ordered j) : j.normalize = j := by
  induction h with
  | scalar hs =>
    unfold normalize
    split
    · cases hs
    · cases hs
    · rfl
  | array _ ih =>
    rw [normalize, normalizeItems_eq_map]
    exact congrArg Json.array ((List.map_congr_left ih).trans (List.map_id _))
  | object hk _ ih => rw [normalize, normalizeFields_of_ordered (by rwa [List.nil_append]) ih,
      List.nil_append]

theorem normalizeFields_all {P : Json → Prop} (hd : ∀ e ∈ done, P e.2)
    (h : ∀ e ∈ fields, P e.2.normalize) : ∀ e ∈ normalizeFields done fields, P e.2 := by
  induction fields generalizing done with
  | nil => exact hd
  | cons f fields ih =>
    rcases List.forall_mem_cons.mp h with ⟨hf, hs⟩
    refine ih (fun e he => ?_) hs
    rcases mem_insertField he with rfl | he
    · exact hf
    · exact hd e he

theorem pairwise_normalizeFields (hd : done.Pairwise (·.1 < ·.1)) :
    (normalizeFields done fields).Pairwise (·.1 < ·.1) := by
  induction fields generalizing done with
  | nil => exact hd
  | cons f fields ih => exact ih (pairwise_insertField hd)

/-- A value is put in order, and gets no other scalars by it. -/
theorem Within.normalize (h : Within p n j) : Ordered j.normalize ∧ Within p n j.normalize := by
  induction h with
  | @scalar n j hs h =>
    have he : j.normalize = j := normalize_of_ordered (.scalar hs)
    rw [he]
    exact ⟨.scalar hs, .scalar hs h⟩
  | array _ ih =>
    rw [Json.normalize, normalizeItems_eq_map]
    exact ⟨.array (List.forall_mem_map.mpr fun v hv => (ih v hv).1),
      .array (List.forall_mem_map.mpr fun v hv => (ih v hv).2)⟩
  | object _ ih =>
    rw [Json.normalize]
    exact ⟨.object (pairwise_normalizeFields .nil)
        (normalizeFields_all nofun fun e he => (ih e he).1),
      .object (normalizeFields_all nofun fun e he => (ih e he).2)⟩

end Scratchpad.Json
