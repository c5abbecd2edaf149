import Scratchpad.Proofs.Json.Value
import Scratchpad.Proofs.Wire.Identifier
import Scratchpad.Wire.Message

/-! Messages come back from the JSON that is written of them. -/
namespace Scratchpad.Wire

open Json (Record Within Ranged Ordered Everywhere)

variable {α β : Type} {j v : Json} {type key : String} {fields : Record} {keys : List String}
  {b : Bool} {u : Uuid} {n limit : Nat} {a : α} {f : Json → Option α} {default : α} {r : Record}

/-! ### Fields -/

theorem reads {x : Option α} {g : α → Option β} {c : β} (h : x = some a) (hg : g a = some c) :
    (x >>= g) = some c := Option.bind_eq_some_iff.mpr ⟨a, h, hg⟩

theorem untag?_tagged (h : ∀ e ∈ fields, e.1 ≠ "type") :
    untag? (tagged type fields) = some (type, .object fields) := by
  have hnone : fields.filter (·.1 == "type") = [] := by simpa using h
  have hall : fields.filter (·.1 != "type") = fields := by simpa using h
  simp [untag?, tagged, hnone, hall]

theorem record?_object (hk : (fields.map (·.1)).Sublist keys) (hd : keys.Nodup) :
    (Json.object fields).record? keys b = some fields := by
  have hknown : fields.filter (fun e => keys.contains e.1) = fields := by
    refine List.filter_eq_self.mpr fun e he => ?_
    simpa using hk.subset (List.mem_map_of_mem (f := (·.1)) he)
  rw [Json.record?]
  dsimp only
  rw [hknown, if_pos (hk.nodup hd)]

theorem keys_field {g : α → Json} {o : Option α} :
    ((field key g o).map (·.1)).Sublist [key] := by
  cases o with
  | none => exact List.nil_sublist _
  | some a => exact .refl _

theorem get?_eq (h : r.lookup key = some v) (hf : f v = some a) : r.get? key f = some a := by
  rw [Record.get?, h]
  exact hf

theorem getD?_eq (h : r.lookup key = some v) (hf : f v = some a) :
    r.getD? key f default = some a := by
  rw [Record.getD?, h]
  exact hf

theorem getD?_string (o : Option String) (h : r.lookup key = none) :
    Record.getD? (r ++ field key .string o) key (Json.nullable? Json.string?) none = some o := by
  cases o with
  | none =>
    rw [field, List.append_nil, Record.getD?, h]
  | some s =>
    have hlookup : (r ++ field key .string (some s)).lookup key = some (.string s) := by
      rw [List.lookup_append, h]
      simp [field]
    exact getD?_eq hlookup rfl

theorem uuid?_uuidJson (h : u.value < 2 ^ 128) : (uuidJson u).uuid? = some u := by
  rw [uuidJson, Json.uuid?, Json.string?, Option.bind_some, Uuid.read?_render h]

theorem natBelow?_nat (h : n < limit) : (Json.nat n).natBelow? limit = some n := by
  simp [Json.natBelow?, Json.nat, h]

theorem word?_nat (h : n < 2 ^ 64) : (Json.nat n).word? = some n := natBelow?_nat h

theorem halfWord?_nat (h : n < 2 ^ 32) : (Json.nat n).halfWord? = some n := natBelow?_nat h

theorem constant?_name (l : Language) :
    constant? Language.ofName? (.string l.name) = some l := by cases l <;> decide

theorem constant?_kind (k : ConsoleKind) :
    constant? ConsoleKind.ofName? (.string k.name) = some k := by cases k <;> decide

theorem items?_strings (ss : List String) :
    (Json.array (ss.map .string)).items? Json.string? = some ss := by
  rw [Json.items?]
  induction ss with
  | nil => rfl
  | cons s ss ih =>
    rw [List.map_cons, List.mapM_cons, ih]
    rfl

/-! ### Parts of messages -/

theorem ofJson?_runOptions {o : RunOptions} (h : o.timeout < 2 ^ 64) :
    RunOptions.ofJson? o.toJson = some o := by
  refine reads (record?_object ((List.Sublist.refl ["timeout", "showUndefined"]).append keys_field)
    (by decide)) ?_
  refine reads (get?_eq rfl (word?_nat h)) (reads (getD?_eq rfl rfl) (reads ?_ rfl))
  exact getD?_string o.debugFunction rfl

theorem ofJson?_transpileOptions (o : TranspileOptions) :
    TranspileOptions.ofJson? o.toJson = some o := by
  refine reads (record?_object ((List.Sublist.refl ["language"]).append keys_field)
    (by decide)) ?_
  refine reads (get?_eq rfl (constant?_name _)) (reads ?_ rfl)
  exact @getD?_string _ [("language", .string o.language.name)] o.fileName rfl

theorem ofJson?_errorReport (r : ErrorReport) :
    ErrorReport.ofJson? (ErrorReport.toJson r) = some r := by
  refine reads (record?_object ((List.Sublist.refl ["name", "message"]).append keys_field)
    (by decide)) ?_
  refine reads (get?_eq rfl rfl) (reads (get?_eq rfl rfl) (reads ?_ rfl))
  exact getD?_string r.stack rfl

theorem memoryReport?_reportJson {r : Memory.Report} (h₁ : r.heapUsed < 2 ^ 64)
    (h₂ : r.heapTotal < 2 ^ 64) (h₃ : r.objectCount < 2 ^ 64) :
    memoryReport? (reportJson r) = some r := by
  refine reads (record?_object (.refl _) (by decide)) ?_
  exact reads (getD?_eq rfl (word?_nat h₁)) (reads (getD?_eq rfl (word?_nat h₂))
    (reads (getD?_eq rfl (word?_nat h₃)) rfl))

theorem statusMessage?_object (s : String) :
    statusMessage? (.object [("message", .string s)]) = some s := by
  refine reads (record?_object (.refl _) (by decide)) ?_
  exact get?_eq rfl rfl

/-! ### Messages -/

/-- The numbers of the message fit their types. -/
def HostMessage.Typed : HostMessage → Prop
  | .execute id _ _ options => id.value < 2 ^ 128 ∧ options.timeout < 2 ^ 64
  | .cancel id | .transpile id _ _ => id.value < 2 ^ 128
  | .gc | .reset _ => True

theorem HostMessage.ofJson?_toJson {m : HostMessage} (h : m.Typed) :
    HostMessage.ofJson? m.toJson = some m := by
  cases m with
  | execute id code language options =>
    refine reads (untag?_tagged (by simp)) (reads (record?_object (.refl _) (by decide)) ?_)
    refine reads (get?_eq rfl (uuid?_uuidJson h.1)) (reads (get?_eq rfl rfl) ?_)
    exact reads (get?_eq rfl (constant?_name _)) (reads (get?_eq rfl (ofJson?_runOptions h.2)) rfl)
  | cancel id =>
    refine reads (untag?_tagged (by simp)) (reads (record?_object (.refl _) (by decide)) ?_)
    exact reads (get?_eq rfl (uuid?_uuidJson h)) rfl
  | transpile id code options =>
    refine reads (untag?_tagged (by simp)) (reads (record?_object (.refl _) (by decide)) ?_)
    refine reads (get?_eq rfl (uuid?_uuidJson h)) (reads (get?_eq rfl rfl) ?_)
    exact reads (get?_eq rfl (ofJson?_transpileOptions _)) rfl
  | gc => exact reads (untag?_tagged (by simp)) rfl
  | reset preserve =>
    refine reads (untag?_tagged (by simp)) (reads (record?_object (.refl _) (by decide)) ?_)
    exact reads (get?_eq rfl (items?_strings _)) rfl

/-- A value as programs hold it: whole numbers fit 64 bits and fields are in order. -/
structure Held (j : Json) : Prop where
  ordered : Ordered j
  ranged : Everywhere Ranged j

/-- The values that a message carries. -/
def WorkerMessage.payload : WorkerMessage → Json
  | .console _ _ data => .array data
  | .debug _ _ data | .complete _ data => data
  | _ => .null

/-- The numbers of the message fit their types. -/
def WorkerMessage.Fits : WorkerMessage → Prop
  | .ready => True
  | .console id _ _ | .complete id _ | .error id _ => id.value < 2 ^ 128
  | .debug id line _ => id.value < 2 ^ 128 ∧ line < 2 ^ 32
  | .status id _ => ∀ u ∈ id, u.value < 2 ^ 128
  | .memory r => r.heapUsed < 2 ^ 64 ∧ r.heapTotal < 2 ^ 64 ∧ r.objectCount < 2 ^ 64

structure WorkerMessage.Typed (m : WorkerMessage) : Prop where
  fits : m.Fits
  held : Held m.payload

theorem value?_ordered (h : Ordered j) : value? j = some j :=
  congrArg some (Json.normalize_of_ordered h)

theorem items?_ordered {vs : List Json} (h : Ordered (.array vs)) :
    (Json.array vs).items? value? = some vs := by
  cases h with
  | scalar hs => cases hs
  | array h =>
    rw [Json.items?]
    induction vs with
    | nil => rfl
    | cons v vs ih =>
      rcases List.forall_mem_cons.mp h with ⟨hv, hs⟩
      rw [List.mapM_cons, value?_ordered hv, ih hs]
      rfl

theorem nullable?_uuid {id : Option Uuid} (h : ∀ u ∈ id, u.value < 2 ^ 128) :
    Json.nullable? Json.uuid? (.ofOption uuidJson id) = some id := by
  cases id with
  | none => rfl
  | some u => exact congrArg (Option.map some) (uuid?_uuidJson (h u rfl))

theorem WorkerMessage.ofJson?_toJson {m : WorkerMessage} (h : m.Typed) :
    WorkerMessage.ofJson? m.toJson = some m := by
  have hfits := h.fits
  have hpayload := h.held.ordered
  cases m with
  | ready => exact reads (untag?_tagged (by simp)) rfl
  | console id kind data =>
    refine reads (untag?_tagged (by simp)) (reads (record?_object (.refl _) (by decide)) ?_)
    refine reads (get?_eq rfl (uuid?_uuidJson hfits)) (reads (get?_eq rfl (constant?_kind _)) ?_)
    exact reads (get?_eq rfl (items?_ordered hpayload)) rfl
  | debug id line data =>
    refine reads (untag?_tagged (by simp)) (reads (record?_object (.refl _) (by decide)) ?_)
    refine reads (get?_eq rfl (uuid?_uuidJson hfits.1)) ?_
    refine reads (get?_eq rfl (halfWord?_nat hfits.2)) ?_
    exact reads (get?_eq rfl (value?_ordered hpayload)) rfl
  | complete id data =>
    refine reads (untag?_tagged (by simp)) (reads (record?_object (.refl _) (by decide)) ?_)
    refine reads (get?_eq rfl (uuid?_uuidJson hfits)) ?_
    exact reads (getD?_eq rfl (value?_ordered hpayload)) rfl
  | error id report =>
    refine reads (untag?_tagged (by simp)) (reads (record?_object (.refl _) (by decide)) ?_)
    refine reads (get?_eq rfl (uuid?_uuidJson hfits)) ?_
    exact reads (get?_eq rfl (ofJson?_errorReport _)) rfl
  | status id message =>
    refine reads (untag?_tagged (by simp)) (reads (record?_object (.refl _) (by decide)) ?_)
    refine reads (getD?_eq rfl (nullable?_uuid hfits)) ?_
    exact reads (get?_eq rfl (statusMessage?_object _)) rfl
  | memory r =>
    refine reads (untag?_tagged (by simp)) (reads (record?_object (.refl _) (by decide)) ?_)
    exact reads (get?_eq rfl (memoryReport?_reportJson hfits.1 hfits.2.1 hfits.2.2)) rfl

end Scratchpad.Wire
