import Mathlib
import Scratchpad.Uuid

/-! Identifiers come back from their text, and what is read has 128 bits. -/
namespace Scratchpad.Uuid

variable {cs ds : List Char} {c : Char} {ns : List Nat} {n k v : Nat} {s : String} {u : Uuid}

/-! ### Digits -/

/-- What the digits do to the value of those before them. -/
def addDigits (n : Nat) (cs : List Char) : Option Nat :=
  cs.foldlM (fun n c => (hexDigit? c).map (n * 16 + ·)) n

theorem addDigits_append : addDigits n (cs ++ ds) = (addDigits n cs).bind (addDigits · ds) :=
  List.foldlM_append

theorem hexDigit?_digitChar {d : Nat} (h : d < 16) : hexDigit? (Nat.digitChar d) = some d := by
  have hall : ∀ d < 16, hexDigit? (Nat.digitChar d) = some d := by decide
  exact hall d h

theorem lt_of_hexDigit? (h : hexDigit? c = some v) : v < 16 := by
  unfold hexDigit? at h
  split at h
  · next hc =>
    cases h
    have : c.toNat ≤ '9'.toNat := by
      simp only [Char.isDigit, Bool.and_eq_true, decide_eq_true_eq] at hc
      exact hc.2
    have : '9'.toNat - '0'.toNat = 9 := rfl
    omega
  · split at h
    · next hc =>
      cases h
      have : c.toNat ≤ 'f'.toNat := (Bool.and_eq_true_iff.mp hc).2 |> of_decide_eq_true
      have : 'f'.toNat - 'a'.toNat = 5 := rfl
      omega
    · split at h
      · next hc =>
        cases h
        have : c.toNat ≤ 'F'.toNat := (Bool.and_eq_true_iff.mp hc).2 |> of_decide_eq_true
        have : 'F'.toNat - 'A'.toNat = 5 := rfl
        omega
      · cases h

theorem addDigits_lt (h : addDigits n cs = some v) : v < (n + 1) * 16 ^ cs.length := by
  induction cs generalizing n with
  | nil =>
    cases h
    simp
  | cons c cs ih =>
    rcases Option.bind_eq_some_iff.mp h with ⟨m, hm, hv⟩
    rcases Option.map_eq_some_iff.mp hm with ⟨d, hd, rfl⟩
    have hlt := lt_of_hexDigit? hd
    calc
      v < (n * 16 + d + 1) * 16 ^ cs.length := ih hv
      _ ≤ (n + 1) * 16 * 16 ^ cs.length := Nat.mul_le_mul_right _ (by omega)
      _ = (n + 1) * 16 ^ (c :: cs).length := by rw [List.length_cons, Nat.pow_succ]; ac_rfl

theorem addDigits_zeros : addDigits 0 (List.replicate k '0') = some 0 := by
  induction k with
  | zero => rfl
  | succ k ih => exact ih

theorem addDigits_toDigits (v : Nat) : addDigits 0 (Nat.toDigits 16 v) = some v := by
  induction v using Nat.strongRecOn with
  | ind v ih =>
    by_cases hv : v < 16
    · rw [Nat.toDigits_of_lt_base hv]
      simp [addDigits, hexDigit?_digitChar hv]
    · rw [Nat.toDigits_of_base_le (by decide) (by omega), addDigits_append, ih (v / 16) (by omega)]
      have hd : v % 16 < 16 := Nat.mod_lt _ (by decide)
      simp only [Option.bind_some, addDigits, List.foldlM_cons, hexDigit?_digitChar hd,
        Option.map_some, List.foldlM_nil]
      exact congrArg some (by omega)

/-- The digits of an identifier, with zeros in front. -/
def paddedDigits (v : Nat) : List Char :=
  List.replicate (32 - (Nat.toDigits 16 v).length) '0' ++ Nat.toDigits 16 v

theorem length_paddedDigits (h : v < 2 ^ 128) : (paddedDigits v).length = 32 := by
  have hlength : (Nat.toDigits 16 v).length ≤ 32 :=
    (Nat.length_toDigits_le_iff (by decide) (by decide)).mpr h
  simp only [paddedDigits, List.length_append, List.length_replicate]
  omega

theorem ofDigits?_padded (h : v < 2 ^ 128) : ofDigits? (paddedDigits v) = some ⟨v⟩ := by
  have hv : addDigits 0 (paddedDigits v) = some v := by
    rw [paddedDigits, addDigits_append, addDigits_zeros, Option.bind_some, addDigits_toDigits]
  rw [ofDigits?, if_pos (length_paddedDigits h)]
  exact congrArg (Option.map Uuid.mk) hv

/-! ### Groups -/

theorem ungroup?_regroup (h : ds.length = ns.sum) : ungroup? ns (regroup ns ds) = some ds := by
  induction ns generalizing ds with
  | nil =>
    obtain rfl : ds = [] := List.length_eq_zero_iff.mp h
    rfl
  | cons n ns ih =>
    rw [List.sum_cons] at h
    cases ns with
    | nil =>
      have htake : ds.take n = ds := List.take_of_length_le (by simp at h; omega)
      rw [regroup, htake, ungroup?, if_pos (by simpa using h)]
    | cons m ns =>
      have hlength : (ds.take n).length = n := by
        rw [List.length_take]
        omega
      have hrest := @ih (ds.drop n) (by rw [List.length_drop]; omega)
      have hdrop : (ds.take n ++ '-' :: regroup (m :: ns) (ds.drop n)).drop n =
          '-' :: regroup (m :: ns) (ds.drop n) := List.drop_left' hlength
      have htake : (ds.take n ++ '-' :: regroup (m :: ns) (ds.drop n)).take n = ds.take n :=
        List.take_left' hlength
      simp only [regroup, ungroup?, hdrop, htake, hrest, Option.map_some, List.take_append_drop]

theorem mem_regroup (h : c ∈ regroup ns ds) : c = '-' ∨ c ∈ ds := by
  induction ns generalizing ds with
  | nil => cases h
  | cons n ns ih =>
    cases ns with
    | nil => exact .inr (List.mem_of_mem_take h)
    | cons m ns =>
      rcases List.mem_append.mp h with h | h
      · exact .inr (List.mem_of_mem_take h)
      · rcases List.mem_cons.mp h with rfl | h
        · exact .inl rfl
        · exact (ih h).imp id List.mem_of_mem_drop

theorem utf8ByteSize_ascii (h : ∀ c ∈ cs, c.utf8Size = 1) :
    (String.ofList cs).utf8ByteSize = cs.length := by
  induction cs with
  | nil => rfl
  | cons c cs ih =>
    rcases List.forall_mem_cons.mp h with ⟨hc, hs⟩
    rw [String.ofList_cons, String.utf8ByteSize_append, String.utf8ByteSize_singleton, hc, ih hs,
      List.length_cons, Nat.add_comm]

theorem length_regroup (h : ds.length = ns.sum) :
    (regroup ns ds).length = ns.sum + (ns.length - 1) := by
  induction ns generalizing ds with
  | nil => rfl
  | cons n ns ih =>
    rw [List.sum_cons] at h
    cases ns with
    | nil => simp [regroup, h]
    | cons m ns =>
      have hrest := @ih (ds.drop n) (by rw [List.length_drop]; omega)
      simp only [regroup, List.length_append, List.length_cons, List.length_take, hrest,
        List.sum_cons] at h ⊢
      omega

/-! ### Texts -/

theorem utf8Size_paddedDigits (h : c ∈ paddedDigits v) : c.utf8Size = 1 := by
  have hhex : ∀ d, c ∈ Nat.toDigits 16 d → c.utf8Size = 1 := by
    intro d
    induction d using Nat.strongRecOn with
    | ind d ih =>
      have hall : ∀ d < 16, (Nat.digitChar d).utf8Size = 1 := by decide
      intro hc
      by_cases hd : d < 16
      · rw [Nat.toDigits_of_lt_base hd, List.mem_singleton] at hc
        exact hc ▸ hall d hd
      · rw [Nat.toDigits_of_base_le (by decide) (by omega), List.mem_append] at hc
        rcases hc with hc | hc
        · exact ih (d / 16) (by omega) hc
        · exact (List.mem_singleton.mp hc) ▸ hall (d % 16) (Nat.mod_lt _ (by decide))
  rcases List.mem_append.mp h with h | h
  · obtain rfl : c = '0' := List.eq_of_mem_replicate h
    rfl
  · exact hhex v h

/-- An identifier of 128 bits comes back from its text. -/
theorem read?_render (h : u.value < 2 ^ 128) : read? u.render = some u := by
  have hlength : (paddedDigits u.value).length = groups.sum := length_paddedDigits h
  have hrender : u.render = .ofList (regroup groups (paddedDigits u.value)) := rfl
  have hsize : u.render.utf8ByteSize = 36 := by
    rw [hrender, utf8ByteSize_ascii, length_regroup hlength]
    · rfl
    · intro c hc
      rcases mem_regroup hc with rfl | hc
      · rfl
      · exact utf8Size_paddedDigits hc
  have hgroups : ofGroups? u.render.toList = some u := by
    rw [hrender, String.toList_ofList, ofGroups?, ungroup?_regroup hlength, Option.bind_some,
      ofDigits?_padded h]
  simp only [read?, hsize]
  exact hgroups

theorem lt_of_ofDigits? (h : ofDigits? cs = some u) : u.value < 2 ^ 128 := by
  unfold ofDigits? at h
  split at h
  · next hlength =>
    rcases Option.map_eq_some_iff.mp h with ⟨v, hv, rfl⟩
    have hlt := addDigits_lt hv
    rw [hlength] at hlt
    exact hlt
  · cases h

theorem lt_of_read? (h : read? s = some u) : u.value < 2 ^ 128 := by
  have hgroups {cs : List Char} (h : ofGroups? cs = some u) : u.value < 2 ^ 128 := by
    rcases Option.bind_eq_some_iff.mp h with ⟨ds, -, h⟩
    exact lt_of_ofDigits? h
  unfold read? at h
  dsimp only at h
  split at h
  · exact lt_of_ofDigits? h
  · exact hgroups h
  · split at h
    · exact hgroups h
    · cases h
  · split at h
    · exact hgroups h
    · cases h
  · cases h

end Scratchpad.Uuid
