import Scratchpad.Proofs.Wire.Message

/-!
The way of a message through a line of text and back. A message is read from its line if its values
are nested less deep than the reader goes and its doubles are read from their own texts; what was
read from some line has all its numbers in range and its fields in order, so that its own line says
the same.
-/
namespace Scratchpad.Wire

open Json (Record Within Ranged Repeats ReadsBack Ordered Everywhere Nests)

variable {α β : Type} {j v w rest : Json} {type key text : String} {fields r : Record}
  {keys : List String} {b : Bool} {u : Uuid} {n k limit : Nat} {a : α} {f : Json → Option α}
  {default : α} {p : Json → Prop}

/-! ### The depth of messages -/

section
variable (hp : ∀ j, Ranged j → (∀ x, j ≠ .float x) → p j)
include hp

theorem within_string {s : String} : Within p n (.string s) :=
  .scalar rfl (hp _ trivial nofun)

theorem within_bool {b : Bool} : Within p n (.bool b) := .scalar rfl (hp _ trivial nofun)

theorem within_nat (h : k < 2 ^ 64) : Within p n (.nat k) :=
  .scalar rfl (hp _ ⟨by omega, by omega⟩ nofun)

theorem within_field (o : Option String) : ∀ e ∈ field key .string o, Within p n e.2 := by
  cases o with
  | none => nofun
  | some s => exact List.forall_mem_singleton.mpr (within_string hp)

theorem within_tagged (h : ∀ e ∈ fields, Within p n e.2) : Within p (n + 1) (tagged type fields) :=
  .object (List.forall_mem_cons.mpr ⟨within_string hp, h⟩)

theorem within_options (o : RunOptions) (h : o.timeout < 2 ^ 64) : Within p (n + 1) o.toJson := by
  refine .object (List.forall_mem_append.mpr ⟨?_, within_field hp _⟩)
  simp [within_nat hp h, within_bool hp]

theorem within_transpileOptions (o : TranspileOptions) : Within p (n + 1) o.toJson :=
  .object (List.forall_mem_cons.mpr ⟨within_string hp, within_field hp _⟩)

theorem within_errorReport (e : ErrorReport) : Within p (n + 1) (ErrorReport.toJson e) := by
  refine .object (List.forall_mem_append.mpr ⟨?_, within_field hp _⟩)
  simp [within_string hp]

/-- A message of the host is nested two levels deep at most. -/
theorem HostMessage.within {m : HostMessage} (h : m.Typed) : Within p (n + 2) m.toJson := by
  refine within_tagged hp ?_
  cases m with
  | execute id code language options =>
    simp [within_string hp, uuidJson, within_options hp options h.2]
  | cancel id => simp [within_string hp, uuidJson]
  | transpile id code options =>
    simp [within_string hp, uuidJson, within_transpileOptions hp options]
  | gc => exact List.forall_mem_nil _
  | reset preserve =>
    have hstrings : Within p (n + 1) (.array (preserve.map .string)) :=
      .array (List.forall_mem_map.mpr fun s _ => within_string hp)
    simpa using hstrings

/-- A message of a worker is nested one level deeper than what it carries. -/
theorem WorkerMessage.within {m : WorkerMessage} (h : m.Fits) (hd : Within p (n + 1) m.payload) :
    Within p (n + 2) m.toJson := by
  refine within_tagged hp ?_
  cases m with
  | ready => nofun
  | console id kind data =>
    have hd : Within p (n + 1) (.array data) := hd
    simp [within_string hp, uuidJson, hd]
  | debug id line data =>
    have hd : Within p (n + 1) data := hd
    have hline : line < 2 ^ 64 := Nat.lt_trans h.2 (by decide)
    simp [within_string hp, within_nat hp hline, uuidJson, hd]
  | complete id data =>
    have hd : Within p (n + 1) data := hd
    simp [within_string hp, uuidJson, hd]
  | error id report => simp [within_string hp, uuidJson, within_errorReport hp report]
  | status id message =>
    have hid : Within p (n + 1) (Json.ofOption uuidJson id) := by
      cases id with
      | none => exact hd
      | some u => exact within_string hp
    have hmessage : Within p (n + 1) (.object [("message", .string message)]) :=
      .object (List.forall_mem_singleton.mpr (within_string hp))
    simp [hid, hmessage]
  | memory r =>
    have hreport : Within p (n + 1) (reportJson r) := by
      refine .object ?_
      simp [within_nat hp h.1, within_nat hp h.2.1, within_nat hp h.2.2]
    simpa using hreport

end

/-! ### What was read is typed -/

theorem mem_of_lookup (h : r.lookup key = some v) : (key, v) ∈ r := by
  rcases List.lookup_eq_some_iff.mp h with ⟨_, _, rfl, -⟩
  simp

theorem within_untag (h : untag? j = some (type, rest)) (hj : Within p (n + 1) j) :
    Within p (n + 1) rest := by
  unfold untag? at h
  split at h
  · split at h
    · cases h
      cases hj with
      | scalar hs _ => cases hs
      | object hj => exact .object fun e he => hj e (List.mem_filter.mp he).1
    · cases h
  · cases h
    cases hj with
    | scalar hs _ => cases hs
    | array hj => exact .array fun v hv => hj v (List.mem_cons_of_mem _ hv)
  · cases h

theorem within_record (h : j.record? keys b = some r) (hj : Within p (n + 1) j) :
    ∀ e ∈ r, Within p n e.2 := by
  unfold Json.record? at h
  split at h
  · dsimp only at h
    split at h
    · cases h
      cases hj with
      | scalar hs _ => cases hs
      | object hj => exact fun e he => hj e (List.mem_filter.mp he).1
    · cases h
  · split at h
    · cases h
    · cases h
      cases hj with
      | scalar hs _ => cases hs
      | array hj => exact fun e he => hj e.2 (List.of_mem_zip he).2
  · cases h

/-- A field that was read has its value from the record. -/
theorem of_get? (h : r.get? key f = some a) : ∃ v, (key, v) ∈ r ∧ f v = some a := by
  rcases Option.bind_eq_some_iff.mp h with ⟨v, hv, ha⟩
  exact ⟨v, mem_of_lookup hv, ha⟩

theorem of_getD? (h : r.getD? key f default = some a) :
    a = default ∨ ∃ v, (key, v) ∈ r ∧ f v = some a := by
  unfold Record.getD? at h
  split at h
  · next v hv => exact .inr ⟨v, mem_of_lookup hv, h⟩
  · cases h
    exact .inl rfl

theorem lt_of_natBelow? (h : v.natBelow? limit = some k) : k < limit := by
  unfold Json.natBelow? at h
  split at h
  · next n =>
    split at h
    · next hn =>
      cases h
      rcases Bool.and_eq_true_iff.mp hn with ⟨hlow, hhigh⟩
      have := of_decide_eq_true hlow
      have := of_decide_eq_true hhigh
      omega
    · cases h
  · cases h

theorem lt_of_word? (h : v.word? = some k) : k < 2 ^ 64 := lt_of_natBelow? h

theorem lt_of_uuid? (h : v.uuid? = some u) : u.value < 2 ^ 128 := by
  rcases Option.bind_eq_some_iff.mp h with ⟨s, -, hs⟩
  exact Uuid.lt_of_read? hs

theorem lt_of_get?_uuid (h : r.get? key Json.uuid? = some u) : u.value < 2 ^ 128 := by
  rcases of_get? h with ⟨v, -, hv⟩
  exact lt_of_uuid? hv

theorem lt_of_getD?_word (h : r.getD? key Json.word? 0 = some k) : k < 2 ^ 64 := by
  rcases of_getD? h with rfl | ⟨v, -, hv⟩
  · decide
  · exact lt_of_word? hv

theorem lt_of_runOptions {o : RunOptions} (h : RunOptions.ofJson? v = some o) :
    o.timeout < 2 ^ 64 := by
  rcases Option.bind_eq_some_iff.mp h with ⟨r, -, h⟩
  rcases Option.bind_eq_some_iff.mp h with ⟨timeout, ht, h⟩
  rcases Option.bind_eq_some_iff.mp h with ⟨_, -, h⟩
  rcases Option.bind_eq_some_iff.mp h with ⟨_, -, h⟩
  cases h
  rcases of_get? ht with ⟨w, -, hw⟩
  exact lt_of_word? hw

theorem HostMessage.typed_of_ofJson? {m : HostMessage} (h : HostMessage.ofJson? j = some m) :
    m.Typed := by
  rcases Option.bind_eq_some_iff.mp h with ⟨⟨type, rest⟩, -, h⟩
  dsimp only at h
  split at h
  · rcases Option.bind_eq_some_iff.mp h with ⟨r, -, h⟩
    rcases Option.bind_eq_some_iff.mp h with ⟨id, hid, h⟩
    rcases Option.bind_eq_some_iff.mp h with ⟨code, -, h⟩
    rcases Option.bind_eq_some_iff.mp h with ⟨language, -, h⟩
    rcases Option.bind_eq_some_iff.mp h with ⟨options, ho, h⟩
    cases h
    rcases of_get? ho with ⟨v, -, hv⟩
    exact ⟨lt_of_get?_uuid hid, lt_of_runOptions hv⟩
  · rcases Option.bind_eq_some_iff.mp h with ⟨r, -, h⟩
    rcases Option.bind_eq_some_iff.mp h with ⟨id, hid, h⟩
    cases h
    exact lt_of_get?_uuid hid
  · rcases Option.bind_eq_some_iff.mp h with ⟨r, -, h⟩
    rcases Option.bind_eq_some_iff.mp h with ⟨id, hid, h⟩
    rcases Option.bind_eq_some_iff.mp h with ⟨code, -, h⟩
    rcases Option.bind_eq_some_iff.mp h with ⟨options, -, h⟩
    cases h
    exact lt_of_get?_uuid hid
  · rcases Option.map_eq_some_iff.mp h with ⟨_, -, rfl⟩
    trivial
  · rcases Option.bind_eq_some_iff.mp h with ⟨r, -, h⟩
    rcases Option.bind_eq_some_iff.mp h with ⟨preserve, -, h⟩
    cases h
    trivial
  · cases h

theorem eq_normalize_of_items? {vs : List Json} (h : v.items? value? = some vs) :
    Json.array vs = v.normalize := by
  unfold Json.items? at h
  split at h
  · next items =>
    rw [Json.normalize, Json.normalizeItems_eq_map]
    congr 1
    induction items generalizing vs with
    | nil =>
      cases h
      rfl
    | cons v items ih =>
      rw [List.mapM_cons] at h
      rcases Option.bind_eq_some_iff.mp h with ⟨w, hw, h⟩
      rcases Option.bind_eq_some_iff.mp h with ⟨ws, hws, h⟩
      cases hw
      cases h
      rw [List.map_cons, ih hws]
  · cases h

theorem lt_of_nullable?_uuid {id : Option Uuid} (h : Json.nullable? Json.uuid? v = some id) :
    ∀ u ∈ id, u.value < 2 ^ 128 := by
  unfold Json.nullable? at h
  split at h
  · cases h
    nofun
  · rcases Option.map_eq_some_iff.mp h with ⟨u, hu, rfl⟩
    rintro _ ⟨⟩
    exact lt_of_uuid? hu

/-- A message that was read is typed, and nested no deeper than what it was read from. -/
theorem WorkerMessage.of_ofJson? {m : WorkerMessage} (h : WorkerMessage.ofJson? j = some m)
    (hj : Within Ranged (n + 2) j) :
    m.Fits ∧ Ordered m.payload ∧ Within Ranged (n + 1) m.payload := by
  have hnull : Ordered .null ∧ Within Ranged (n + 1) .null :=
    ⟨.scalar rfl, .scalar rfl trivial⟩
  rcases Option.bind_eq_some_iff.mp h with ⟨⟨type, rest⟩, hu, h⟩
  have hrest := within_untag hu hj
  dsimp only at h
  split at h
  · rcases Option.map_eq_some_iff.mp h with ⟨_, -, rfl⟩
    exact ⟨trivial, hnull⟩
  · rcases Option.bind_eq_some_iff.mp h with ⟨r, hr, h⟩
    rcases Option.bind_eq_some_iff.mp h with ⟨id, hid, h⟩
    rcases Option.bind_eq_some_iff.mp h with ⟨kind, -, h⟩
    rcases Option.bind_eq_some_iff.mp h with ⟨data, hdata, h⟩
    cases h
    rcases of_get? hdata with ⟨v, hv, hitems⟩
    refine ⟨lt_of_get?_uuid hid, ?_⟩
    rw [payload, eq_normalize_of_items? hitems]
    exact (within_record hr hrest _ hv).normalize
  · rcases Option.bind_eq_some_iff.mp h with ⟨r, hr, h⟩
    rcases Option.bind_eq_some_iff.mp h with ⟨id, hid, h⟩
    rcases Option.bind_eq_some_iff.mp h with ⟨line, hline, h⟩
    rcases Option.bind_eq_some_iff.mp h with ⟨data, hdata, h⟩
    cases h
    rcases of_get? hline with ⟨v, -, hv⟩
    rcases of_get? hdata with ⟨w, hw, he⟩
    cases he
    exact ⟨⟨lt_of_get?_uuid hid, lt_of_natBelow? hv⟩, (within_record hr hrest _ hw).normalize⟩
  · rcases Option.bind_eq_some_iff.mp h with ⟨r, hr, h⟩
    rcases Option.bind_eq_some_iff.mp h with ⟨id, hid, h⟩
    rcases Option.bind_eq_some_iff.mp h with ⟨data, hdata, h⟩
    cases h
    refine ⟨lt_of_get?_uuid hid, ?_⟩
    rcases of_getD? hdata with rfl | ⟨v, hv, he⟩
    · exact hnull
    · cases he
      exact (within_record hr hrest _ hv).normalize
  · rcases Option.bind_eq_some_iff.mp h with ⟨r, -, h⟩
    rcases Option.bind_eq_some_iff.mp h with ⟨id, hid, h⟩
    rcases Option.bind_eq_some_iff.mp h with ⟨report, -, h⟩
    cases h
    exact ⟨lt_of_get?_uuid hid, hnull⟩
  · rcases Option.bind_eq_some_iff.mp h with ⟨r, -, h⟩
    rcases Option.bind_eq_some_iff.mp h with ⟨id, hid, h⟩
    rcases Option.bind_eq_some_iff.mp h with ⟨message, -, h⟩
    cases h
    refine ⟨?_, hnull⟩
    rcases of_getD? hid with rfl | ⟨v, -, hv⟩
    · nofun
    · exact lt_of_nullable?_uuid hv
  · rcases Option.bind_eq_some_iff.mp h with ⟨r, -, h⟩
    rcases Option.bind_eq_some_iff.mp h with ⟨report, hreport, h⟩
    cases h
    rcases of_get? hreport with ⟨v, -, hv⟩
    rcases Option.bind_eq_some_iff.mp hv with ⟨r, -, h⟩
    rcases Option.bind_eq_some_iff.mp h with ⟨used, hused, h⟩
    rcases Option.bind_eq_some_iff.mp h with ⟨total, htotal, h⟩
    rcases Option.bind_eq_some_iff.mp h with ⟨count, hcount, h⟩
    cases h
    exact ⟨⟨lt_of_getD?_word hused, lt_of_getD?_word htotal, lt_of_getD?_word hcount⟩, hnull⟩
  · cases h

/-! ### Round trips -/

theorem HostMessage.read?_render {m : HostMessage} (h : m.Typed) :
    HostMessage.read? m.toJson.render = some m := by
  have hw : Within ReadsBack 127 m.toJson := HostMessage.within Json.readsBack_of_ranged h
  rw [HostMessage.read?, (Json.read_render_iff hw).mpr hw, Option.bind_some, ofJson?_toJson h]

theorem WorkerMessage.read?_render_iff {m : WorkerMessage} (h : m.Typed)
    (hf : Everywhere Repeats m.toJson) :
    WorkerMessage.read? m.toJson.render = some m ↔ Nests 127 m.toJson := by
  rcases hf with ⟨k, hf⟩
  rcases h.held.ranged with ⟨n, hn⟩
  have hranged : Within Ranged (n + 2) m.toJson :=
    WorkerMessage.within (fun _ hj _ => hj) h.fits (hn.mono (fun _ => id) (Nat.le_succ n))
  have hback : Within ReadsBack (n + 2) m.toJson := hranged.and hf
  refine ⟨fun hm => ?_, fun hd => ?_⟩
  · rcases Option.bind_eq_some_iff.mp hm with ⟨j, hj, -⟩
    rw [Json.read_render (hback.mono (fun _ => Json.ReadsBack.legible) (Nat.le_refl _))] at hj
    exact (Json.within_of_value? hback hj).mono (fun _ _ => trivial) (Nat.le_refl _)
  · have hw : Within ReadsBack 127 m.toJson :=
      (hd.and hback).mono (fun _ => And.right) (Nat.le_refl _)
    rw [WorkerMessage.read?, (Json.read_render_iff hw).mpr hw, Option.bind_some, ofJson?_toJson h]

/-- A typed message is read from its own line, where all its doubles repeat, if and only if it is
nested less deep than the reader goes. A message that was read from any line is read from its own
line, where all its doubles repeat. -/
theorem read_back :
    (∀ m : HostMessage, m.Typed → HostMessage.read? m.toJson.render = some m) ∧
    (∀ m : WorkerMessage, m.Typed → Everywhere Repeats m.toJson →
      (WorkerMessage.read? m.toJson.render = some m ↔ Nests 127 m.toJson)) ∧
    (∀ (text : String) (m : HostMessage), HostMessage.read? text = some m →
      HostMessage.read? m.toJson.render = some m) ∧
    (∀ (text : String) (m : WorkerMessage), WorkerMessage.read? text = some m →
      Everywhere Repeats m.toJson → WorkerMessage.read? m.toJson.render = some m) := by
  refine ⟨fun m h => HostMessage.read?_render h, fun m h hf => WorkerMessage.read?_render_iff h hf,
    fun text m h => ?_, fun text m h hf => ?_⟩
  · rcases Option.bind_eq_some_iff.mp h with ⟨j, -, hj⟩
    exact HostMessage.read?_render (HostMessage.typed_of_ofJson? hj)
  · rcases Option.bind_eq_some_iff.mp h with ⟨j, hread, hj⟩
    have hw : Within Ranged (125 + 2) j := Json.within_of_read hread
    rcases WorkerMessage.of_ofJson? hj hw with ⟨hfits, hordered, hpayload⟩
    have hnests : Nests (125 + 2) m.toJson :=
      (WorkerMessage.within (fun _ hj _ => hj) hfits hpayload).mono (fun _ _ => trivial)
        (Nat.le_refl _)
    exact (WorkerMessage.read?_render_iff ⟨hfits, hordered, _, hpayload⟩ hf).mpr hnests

/-- A message with values of all kinds and a double that repeats, and lines with their fields in
another order and one field too many. -/
theorem read_back_of_values :
    let m : WorkerMessage := .complete ⟨7⟩
      (.object [("a", .array [.int (-1), .float ⟨0x3fe0000000000000⟩]), ("b", .string "\n")])
    let fields : Record := [("x", .int 1), ("id", .string "00000000-0000-0000-0000-000000000007")]
    let cancel : Json := .object (fields ++ [("type", .string "cancel")])
    let complete : Json := .object (fields ++ [("type", .string "complete")])
    (m.Typed ∧ Everywhere Repeats m.toJson ∧ Nests 127 m.toJson ∧
      WorkerMessage.read? m.toJson.render = some m) ∧
    (HostMessage.read? cancel.render = some (.cancel ⟨7⟩) ∧
      HostMessage.read? (HostMessage.cancel ⟨7⟩).toJson.render = some (.cancel ⟨7⟩)) ∧
    (WorkerMessage.read? complete.render = some (.complete ⟨7⟩ .null) ∧
      WorkerMessage.read? (WorkerMessage.complete ⟨7⟩ .null).toJson.render =
        some (.complete ⟨7⟩ .null)) := by
  intro m fields cancel complete
  have hfloat : Repeats (.float ⟨0x3fe0000000000000⟩) := by decide +kernel
  have hint : Json.Fits (-1) := by decide
  have hpayload : Within ReadsBack 126 m.payload := by
    refine .object (List.forall_mem_cons.mpr ⟨.array (List.forall_mem_cons.mpr ⟨?_, ?_⟩), ?_⟩)
    · exact .scalar rfl ⟨hint, trivial⟩
    · exact List.forall_mem_singleton.mpr (.scalar rfl ⟨trivial, hfloat⟩)
    · exact List.forall_mem_singleton.mpr (.scalar rfl ⟨trivial, trivial⟩)
  have hordered : Ordered m.payload := by
    refine .object (by decide) (List.forall_mem_cons.mpr ⟨.array ?_, ?_⟩)
    · exact List.forall_mem_cons.mpr ⟨.scalar rfl, List.forall_mem_singleton.mpr (.scalar rfl)⟩
    · exact List.forall_mem_singleton.mpr (.scalar rfl)
  have hfits : m.Fits := show 7 < 2 ^ 128 by decide
  have hjson : Within ReadsBack 127 m.toJson :=
    WorkerMessage.within Json.readsBack_of_ranged hfits hpayload
  have htyped : m.Typed := ⟨hfits, hordered, _, hpayload.mono (fun _ => And.left) (Nat.le_refl _)⟩
  have hrepeats : Everywhere Repeats m.toJson :=
    ⟨_, hjson.mono (fun _ => And.right) (Nat.le_refl _)⟩
  have hnests : Nests 127 m.toJson := hjson.mono (fun _ _ => trivial) (Nat.le_refl _)
  have hread (type : String) : Json.read (Json.object (fields ++ [("type", .string type)])).render =
      some (.object (fields ++ [("type", .string type)])) := by
    have hone : Json.Fits 1 := by decide
    have hw : Within ReadsBack 127 (.object (fields ++ [("type", .string type)])) := by
      refine .object (List.forall_mem_cons.mpr ⟨.scalar rfl ⟨hone, trivial⟩, ?_⟩)
      exact List.forall_mem_cons.mpr ⟨.scalar rfl ⟨trivial, trivial⟩,
        List.forall_mem_singleton.mpr (.scalar rfl ⟨trivial, trivial⟩)⟩
    exact (Json.read_render_iff hw).mpr hw
  have hcancel : HostMessage.read? cancel.render = some (.cancel ⟨7⟩) :=
    Option.bind_eq_some_iff.mpr ⟨cancel, hread "cancel", by decide +kernel⟩
  have hcomplete : WorkerMessage.read? complete.render = some (.complete ⟨7⟩ .null) :=
    Option.bind_eq_some_iff.mpr ⟨complete, hread "complete", rfl⟩
  have hnull : Within ReadsBack 127 (WorkerMessage.complete ⟨7⟩ .null).toJson :=
    WorkerMessage.within Json.readsBack_of_ranged hfits (.scalar rfl ⟨trivial, trivial⟩)
  have hsame : Everywhere Repeats (WorkerMessage.complete ⟨7⟩ .null).toJson :=
    ⟨_, hnull.mono (fun _ => And.right) (Nat.le_refl _)⟩
  exact ⟨⟨htyped, hrepeats, hnests, (read_back.2.1 m htyped hrepeats).mpr hnests⟩,
    ⟨hcancel, read_back.2.2.1 _ _ hcancel⟩, hcomplete, read_back.2.2.2 _ _ hcomplete hsame⟩

/-! ### Lines that do not come back -/

/-- A value in so many arrays. -/
def nested : Nat → Json
  | 0 => .null
  | k + 1 => .array [nested k]

/-- A message that is nested one level deeper than the reader goes. -/
def deep : WorkerMessage := .complete ⟨7⟩ (nested 127)

/-- A line with a double that is read as its successor. -/
def driftingLine : String :=
  "\x7b\"type\":\"complete\",\"id\":\"00000000-0000-0000-0000-000000000007\",\"data\":1e-28\x7d"

/-- What the line is read as. Its own line is read as a message with the predecessor. -/
def drifting : WorkerMessage := .complete ⟨7⟩ (.float ⟨0x3a1fb0f6be50601a⟩)

theorem within_nested (hp : p .null) : Within p k (nested k) := by
  induction k with
  | zero => exact .scalar rfl hp
  | succ k ih => exact .array (List.forall_mem_singleton.mpr ih)

theorem le_of_nests (h : Nests n (nested k)) : k ≤ n := by
  induction k generalizing n with
  | zero => exact Nat.zero_le _
  | succ k ih =>
    cases h with
    | scalar hs _ => cases hs
    | array h => exact Nat.succ_le_succ (ih (h _ (List.mem_singleton_self _)))

theorem ordered_nested : Ordered (nested k) := by
  induction k with
  | zero => exact .scalar rfl
  | succ k ih => exact .array (List.forall_mem_singleton.mpr ih)

theorem typed_deep : deep.Typed :=
  ⟨show 7 < 2 ^ 128 by decide, ordered_nested, 127, within_nested trivial⟩

theorem within_deep (hp : ∀ j, Ranged j → (∀ x, j ≠ .float x) → p j) : Within p 128 deep.toJson :=
  WorkerMessage.within hp typed_deep.fits (within_nested (hp _ trivial nofun))

theorem not_nests_deep : ¬ Nests 127 deep.toJson := by
  intro h
  cases h with
  | scalar hs _ => cases hs
  | object h =>
    have hdata : Nests 126 (nested 127) := h ("data", nested 127) (by simp [deep])
    exact absurd (le_of_nests hdata) (by decide)

/-- A double whose text is read as another one comes back as that one. -/
theorem read?_complete {x y : Decimal.Binary64}
    (hx : Json.doubleOf (Json.float x).render = some y) :
    WorkerMessage.read? (WorkerMessage.complete ⟨7⟩ (.float x)).toJson.render =
      some (.complete ⟨7⟩ (.float y)) := by
  have hid : 7 < 2 ^ 128 := by decide
  have hlegible : ∀ j, Ranged j → (∀ x, j ≠ .float x) → Json.Legible j :=
    fun j hj hx => (Json.readsBack_of_ranged j hj hx).legible
  have hw : Within Json.Legible 127 (WorkerMessage.complete ⟨7⟩ (.float x)).toJson :=
    WorkerMessage.within hlegible hid (.scalar rfl (Json.isFinite_of_doubleOf hx))
  have htyped : (WorkerMessage.complete ⟨7⟩ (.float y)).Typed :=
    ⟨hid, .scalar rfl, 0, .scalar rfl trivial⟩
  have hvalue : (WorkerMessage.complete ⟨7⟩ (.float x)).toJson.tree.value? Json.depthLimit =
      some (WorkerMessage.complete ⟨7⟩ (.float y)).toJson := by
    have hn := Json.numberOf_of_doubleOf hx
    change (Json.Tree.fields? 127 (Json.treeFields [_, _, _])).map Json.object = _
    simp [Json.treeFields, Json.tree, Json.Tree.fields?, Json.Tree.value?, hn, uuidJson,
      WorkerMessage.toJson, tagged, WorkerMessage.kind]
  rw [WorkerMessage.read?, Json.read_render hw, hvalue, Option.bind_some]
  exact WorkerMessage.ofJson?_toJson htyped

/-- The line of a message may be nested too deep to be read, and the double that is read from a
line may have a text that is read as another one. -/
theorem not_read_back :
    (deep.Typed ∧ Everywhere (fun j => ∀ x, j ≠ .float x) deep.toJson ∧
      WorkerMessage.read? deep.toJson.render ≠ some deep) ∧
    WorkerMessage.read? driftingLine = some drifting ∧
      WorkerMessage.read? drifting.toJson.render ≠ some drifting := by
  refine ⟨⟨typed_deep, ⟨_, within_deep fun _ _ hx => hx⟩, fun hread => ?_⟩, ?_, ?_⟩
  · have hrepeats : Everywhere Repeats deep.toJson :=
      ⟨_, within_deep fun j hj hx => (Json.readsBack_of_ranged j hj hx).2⟩
    exact not_nests_deep ((WorkerMessage.read?_render_iff typed_deep hrepeats).mp hread)
  · have hline : driftingLine =
        (WorkerMessage.complete ⟨7⟩ (.float ⟨0x3a1fb0f6be506019⟩)).toJson.render := by
      decide +kernel
    rw [hline]
    exact read?_complete (by decide +kernel)
  · have hread : WorkerMessage.read? drifting.toJson.render =
        some (.complete ⟨7⟩ (.float ⟨0x3a1fb0f6be506018⟩)) :=
      read?_complete (by decide +kernel)
    rw [hread]
    simp [drifting]

end Scratchpad.Wire
