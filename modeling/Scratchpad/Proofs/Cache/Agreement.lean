import Mathlib.Data.List.Find
import Scratchpad.Proofs.Cache.Reference

/-!
The cache keeps a few uses of every script only, and still it is LRU-K: call by call it replies what
the reference cache replies, holds the same scripts and would evict the same one.
-/
namespace Scratchpad

variable {α : Type}

/-- The entry that stands for a script. -/
def Resident.entry (k : Nat) (x : Resident α) : CacheEntry α :=
  ⟨.ofCode x.code, x.artifact, ScriptCache.sizeOf x.code, x.uses.take (k + 1)⟩

@[simp] theorem Resident.key_entry (k : Nat) (x : Resident α) : (x.entry k).key = .ofCode x.code :=
  rfl

theorem Resident.entry_new (k now : Nat) (code : String) (artifact : α) :
    Resident.entry k ⟨code, artifact, [now]⟩ =
      ⟨.ofCode code, artifact, ScriptCache.sizeOf code, [now]⟩ := by
  simp [entry]

/-- No two of these scripts have the same digest. -/
def Faithful (codes : List String) : Prop :=
  ∀ a ∈ codes, ∀ b ∈ codes, CacheKey.ofCode a = CacheKey.ofCode b → a = b

namespace CacheEntry

variable (e f : CacheEntry α) (k : Nat)

def rank : Nat ×ₗ Nat := toLex (e.kthRecent k, e.lastUse)

theorem before_iff : e.before k f = true ↔ e.rank k < f.rank k := by
  simp [before, rank, Prod.Lex.toLex_lt_toLex]

end CacheEntry

/-- The uses that an entry keeps are enough to rank it. -/
theorem Resident.rank_entry {k : Nat} (hk : 1 ≤ k) (x : Resident α) :
    (x.entry k).rank k = x.rank k := by
  have hkth : (x.uses.take (k + 1))[k - 1]? = x.uses[k - 1]? :=
    List.getElem?_take_of_lt (by omega)
  have hlast : (x.uses.take (k + 1)).head? = x.uses.head? := by
    rw [List.head?_take, if_neg (by omega)]
  simp only [CacheEntry.rank, Resident.rank, CacheEntry.kthRecent, CacheEntry.lastUse,
    Resident.lastUse, Resident.entry, hkth, hlast]

namespace ScriptCache

variable {k : Nat} {e : CacheEntry α} {es fs : List (CacheEntry α)}

/-! ### The candidate -/

theorem rank_leastFrom_le (k : Nat) (e : CacheEntry α) (es : List (CacheEntry α)) :
    ∀ f ∈ e :: es, (leastFrom k e es).rank k ≤ f.rank k := by
  induction es generalizing e with
  | nil =>
    intro f hf
    rw [List.mem_singleton.mp hf]
    exact le_refl _
  | cons g es ih =>
    intro f hf
    rw [leastFrom]
    have hs := ih (if g.before k e then g else e)
    have hself := hs _ List.mem_cons_self
    rcases List.mem_cons.mp hf with rfl | hf
    · refine hself.trans ?_
      split
      · next hb => exact le_of_lt ((CacheEntry.before_iff _ _ _).mp hb)
      · exact le_refl _
    · rcases List.mem_cons.mp hf with rfl | hf
      · refine hself.trans ?_
        split
        · exact le_refl _
        · next hb => exact le_of_not_gt fun hl => hb ((CacheEntry.before_iff _ _ _).mpr hl)
      · exact hs f (List.mem_cons_of_mem _ hf)

theorem least?_eq_none : least? k es = none ↔ es = [] := by
  cases es <;> simp [least?]

/-- Where no two entries have the same rank, the candidate is the entry of least rank. -/
theorem least?_eq_some (hi : ∀ e ∈ es, ∀ f ∈ es, e.rank k = f.rank k → e = f) :
    least? k es = some e ↔ e ∈ es ∧ ∀ f ∈ es, e.rank k ≤ f.rank k := by
  have hle {g} (hg : least? k es = some g) : ∀ f ∈ es, g.rank k ≤ f.rank k := by
    cases es with
    | nil => simp [least?] at hg
    | cons f es =>
      rw [least?, Option.some.injEq] at hg
      exact hg ▸ rank_leastFrom_le k f es
  constructor
  · intro h
    exact ⟨least?_mem h, hle h⟩
  · rintro ⟨he, hm⟩
    cases hg : least? k es with
    | none =>
      rw [least?_eq_none.mp hg] at he
      cases he
    | some g =>
      have hgm := least?_mem hg
      rw [hi g hgm e he (le_antisymm (hle hg e he) (hm g hgm))]

/-- It does not depend on the order of the entries. -/
theorem least?_perm (hi : ∀ e ∈ es, ∀ f ∈ es, e.rank k = f.rank k → e = f) (hp : fs.Perm es) :
    least? k fs = least? k es := by
  have hi' : ∀ e ∈ fs, ∀ f ∈ fs, e.rank k = f.rank k → e = f := by
    intro e he f hf
    exact hi e (hp.subset he) f (hp.subset hf)
  apply Option.ext
  intro e
  rw [least?_eq_some hi', least?_eq_some hi]
  simp only [hp.mem_iff]

/-! ### Calls -/

/-- Serves a call; the reply to a look-up is the artifact, and whether it was there. -/
def serve (c : ScriptCache α) : CacheCall α → ScriptCache α × Option (α × Bool)
  | .get code compile =>
    let r := c.getOrCreate code compile
    (r.1, some (r.2.artifact, r.2.hit))
  | .clear => (c.clear, none)

end ScriptCache

/-- A cache holds what a reference cache holds. -/
structure Tracks (c : ScriptCache α) (r : LruK α) : Prop where
  k : c.k = r.k
  budget : c.maxMemory = r.budget
  clock : c.clock = r.clock
  entries : c.entries = r.residents.map (Resident.entry r.k)
  memory : c.currentMemory = r.memory

variable {c : ScriptCache α} {r : LruK α} {codes : List String} {x : Resident α} {code : String}
  {need : Nat}

namespace LruK

/-- All scripts in the cache are among these. -/
def Within (codes : List String) (r : LruK α) : Prop := ∀ x ∈ r.residents, x.code ∈ codes

theorem Serves.within {call : CacheCall α} {r' : LruK α} {reply : Option (α × Bool)}
    (hs : Serves r call r' reply) (hw : r.Within codes) (hc : ∀ code ∈ call.code?, code ∈ codes) :
    r'.Within codes := by
  cases hs with
  | hit _ _ =>
    intro y hy
    rcases List.mem_map.mp hy with ⟨x, hx, rfl⟩
    rw [Resident.code_use]
    exact hw x hx
  | oversized _ _ => exact hw
  | miss _ _ room =>
    intro x hx
    rcases List.mem_append.mp hx with hx | hx
    · exact hw x (room.remains.residents.subset hx)
    · rw [List.mem_singleton.mp hx]
      exact hc _ rfl
  | clear => exact nofun

theorem charged_append (xs ys : List (Resident α)) :
    charged (xs ++ ys) = charged xs + charged ys := by
  induction xs with
  | nil => exact (Nat.zero_add _).symm
  | cons x xs ih => simp only [List.cons_append, charged, ih, Nat.add_assoc]

theorem charged_use (code : String) (now : Nat) (xs : List (Resident α)) :
    charged (xs.map (·.use code now)) = charged xs := by
  induction xs with
  | nil => rfl
  | cons x xs ih => simp only [List.map_cons, charged, Resident.code_use, ih]

theorem charged_without {xs : List (Resident α)} (hx : x ∈ xs)
    (hn : (xs.map Resident.code).Nodup) :
    charged (xs.filter fun y => y.code != x.code) + ScriptCache.sizeOf x.code = charged xs := by
  induction xs with
  | nil => cases hx
  | cons y ys ih =>
    rw [List.map_cons, List.nodup_cons] at hn
    rcases List.mem_cons.mp hx with rfl | hx
    · have hrest : ys.filter (fun y => y.code != x.code) = ys := by
        refine List.filter_eq_self.mpr ?_
        intro y hy
        simpa using fun he => hn.1 (List.mem_map.mpr ⟨y, hy, he⟩)
      rw [List.filter_cons_of_neg (by simp), hrest]
      exact Nat.add_comm _ _
    · have hne : y.code ≠ x.code := fun he => hn.1 (List.mem_map.mpr ⟨x, hx, he.symm⟩)
      rw [List.filter_cons_of_pos (by simpa using hne)]
      have hi := ih hx hn.2
      simp only [charged] at hi ⊢
      omega

end LruK

namespace Tracks

theorem rank_inj (h : Tracks c r) (ha : r.Apart) (hk : 1 ≤ r.k) :
    ∀ e ∈ c.entries, ∀ f ∈ c.entries, e.rank c.k = f.rank c.k → e = f := by
  intro e he f hf hr
  rw [h.entries] at he hf
  rcases List.mem_map.mp he with ⟨x, hx, rfl⟩
  rcases List.mem_map.mp hf with ⟨y, hy, rfl⟩
  rw [h.k, x.rank_entry hk, y.rank_entry hk] at hr
  rw [ha.rank_inj hx hy hr]

theorem candidate (h : Tracks c r) (ha : r.Apart) (hk : 1 ≤ r.k) (e : CacheEntry α) :
    c.candidate? = some e ↔ ∃ x, r.IsVictim x ∧ x.entry r.k = e := by
  rw [ScriptCache.candidate?, ScriptCache.least?_eq_some (h.rank_inj ha hk), h.entries, h.k]
  constructor
  · rintro ⟨he, hm⟩
    rcases List.mem_map.mp he with ⟨x, hx, rfl⟩
    refine ⟨x, ⟨hx, ?_⟩, rfl⟩
    intro y hy
    have hxy := hm _ (List.mem_map_of_mem hy)
    rwa [x.rank_entry hk, y.rank_entry hk] at hxy
  · rintro ⟨x, ⟨hx, hm⟩, rfl⟩
    refine ⟨List.mem_map_of_mem hx, ?_⟩
    intro f hf
    rcases List.mem_map.mp hf with ⟨y, hy, rfl⟩
    rw [x.rank_entry hk, y.rank_entry hk]
    exact hm y hy

/-- Keys tell the scripts apart. -/
theorem ofCode_eq (hf : Faithful codes) (hw : r.Within codes) (hc : code ∈ codes)
    (hx : x ∈ r.residents) : CacheKey.ofCode x.code = .ofCode code ↔ x.code = code := by
  constructor
  · exact hf _ (hw x hx) _ hc
  · intro he
    rw [he]

theorem find? (h : Tracks c r) (hf : Faithful codes) (hw : r.Within codes) (hc : code ∈ codes) :
    c.find? (.ofCode code) =
      (r.residents.find? fun x => x.code == code).map (Resident.entry r.k) := by
  rw [ScriptCache.find?, h.entries, List.find?_map]
  refine congrArg (Option.map (Resident.entry r.k)) (List.find?_congr ?_)
  intro x hx
  refine Bool.eq_iff_iff.mpr ?_
  simpa using ofCode_eq hf hw hc hx

theorem contains (h : Tracks c r) (hf : Faithful codes) (hw : r.Within codes) (hc : code ∈ codes) :
    c.contains code = true ↔ ∃ x ∈ r.residents, x.code = code := by
  rw [ScriptCache.contains, h.find? hf hw hc]
  simp

theorem erase (h : Tracks c r) (hf : Faithful codes) (hw : r.Within codes) (ha : r.Apart)
    (hx : x ∈ r.residents) : Tracks (c.erase (x.entry r.k)) (r.without x.code) where
  k := h.k
  budget := h.budget
  clock := h.clock
  entries := by
    show c.entries.filter _ = (r.residents.filter _).map _
    rw [h.entries, List.filter_map]
    refine congrArg (List.map (Resident.entry r.k)) (List.filter_congr ?_)
    intro y hy
    refine congrArg not (Bool.eq_iff_iff.mpr ?_)
    simpa using ofCode_eq hf hw (hw x hx) hy
  memory := by
    have hm := LruK.charged_without hx ha.codes
    show c.currentMemory - ScriptCache.sizeOf x.code = LruK.charged _
    rw [h.memory]
    simp only [LruK.memory, ← hm]
    exact Nat.add_sub_cancel _ _

/-- Eviction goes on as it does in the reference cache. -/
theorem makeRoom (h : Tracks c r) (hf : Faithful codes) (hw : r.Within codes) (ha : r.Apart)
    (hk : 1 ≤ r.k) (hs : need ≤ r.budget) :
    ∃ r', LruK.Evicts need r r' ∧ Tracks (c.makeRoom need) r' := by
  induction hn : c.size using Nat.strong_induction_on generalizing c r with
  | h n ih =>
    unfold ScriptCache.makeRoom
    by_cases hfull : c.maxMemory < c.currentMemory + need
    · have hfull' : r.budget < r.memory + need := by
        rw [← h.budget, ← h.memory]
        exact hfull
      rw [if_pos hfull]
      split
      · next e he =>
        rcases (h.candidate ha hk e).mp he with ⟨x, hv, rfl⟩
        have hlt := c.size_erase_lt (ScriptCache.least?_mem he)
        rcases ih _ (hn ▸ hlt) (h.erase hf hw ha hv.1) (fun y hy => hw y (List.mem_of_mem_filter hy))
          (ha.without _) hk hs rfl with ⟨r', hr, ht⟩
        exact ⟨r', .evict hfull' hv hr, ht⟩
      · -- Nothing is left, and then what is needed fits.
        next he =>
        have hnil : r.residents = [] := by
          have hc := ScriptCache.least?_eq_none.mp he
          rw [h.entries] at hc
          exact List.map_eq_nil_iff.mp hc
        rw [LruK.memory, hnil] at hfull'
        simp only [LruK.charged] at hfull'
        omega
    · rw [if_neg hfull]
      refine ⟨r, .enough ?_, h⟩
      rw [← h.budget, ← h.memory]
      omega

theorem touch (c : ScriptCache α) (hf : Faithful codes) (hc : code ∈ codes) (now : Nat)
    {xs : List (Resident α)} (hw : ∀ x ∈ xs, x.code ∈ codes)
    (hn : (xs.map Resident.code).Nodup) :
    c.touch (.ofCode code) now (xs.map (Resident.entry c.k)) =
      (xs.map (·.use code now)).map (Resident.entry c.k) := by
  induction xs with
  | nil => rfl
  | cons x xs ih =>
    rw [List.map_cons, List.nodup_cons] at hn
    have hx := hw x List.mem_cons_self
    simp only [List.map_cons, ScriptCache.touch]
    by_cases he : x.code = code
    · have hrest : xs.map (·.use code now) = xs := by
        refine (List.map_congr_left ?_).trans (List.map_id _)
        intro y hy
        have hne : y.code ≠ code := fun hy' => hn.1 (List.mem_map.mpr ⟨y, hy, hy'.trans he.symm⟩)
        exact if_neg hne
      have hkey : (x.entry c.k).key = .ofCode code := congrArg CacheKey.ofCode he
      rw [if_pos hkey, hrest]
      simp [Resident.use, Resident.entry, he, List.take_take]
    · have hkey : (x.entry c.k).key ≠ .ofCode code := fun hk => he (hf _ hx _ hc hk)
      rw [if_neg hkey, ih (fun y hy => hw y (List.mem_cons_of_mem _ hy)) hn.2]
      simp [Resident.use, he]

/-- A call gets the same reply from both, and both hold the same afterwards. -/
theorem serve (h : Tracks c r) (hf : Faithful codes) (hw : r.Within codes) (ha : r.Apart)
    (hk : 1 ≤ r.k) (call : CacheCall α) (hc : ∀ code ∈ call.code?, code ∈ codes) :
    ∃ r', LruK.Serves r call r' (c.serve call).2 ∧ Tracks (c.serve call).1 r' := by
  cases call with
  | clear =>
    exact ⟨_, .clear, { h with entries := rfl, memory := rfl }⟩
  | get code compile =>
    have hcode : code ∈ codes := hc code rfl
    have hfind := h.find? hf hw hcode
    simp only [ScriptCache.serve, ScriptCache.getOrCreate, hfind]
    cases hx : r.residents.find? fun x => x.code == code with
    | some x =>
      have hxm := List.mem_of_find?_eq_some hx
      have hxc : x.code = code := by simpa using List.find?_some hx
      refine ⟨_, .hit hxm hxc, { h with clock := ?_, entries := ?_, memory := ?_ }⟩
      · show c.clock + 1 = r.clock + 1
        rw [h.clock]
      · show c.touch _ (c.clock + 1) c.entries = _
        have ht := touch c hf hcode (c.clock + 1) hw ha.codes
        rw [h.k, ← h.entries, h.clock] at ht
        rw [h.clock]
        exact ht
      · show c.currentMemory = LruK.charged _
        rw [LruK.charged_use, h.memory]
        rfl
    | none =>
      have habsent : ∀ x ∈ r.residents, x.code ≠ code := by
        intro x hxm
        simpa using List.find?_eq_none.mp hx x hxm
      have ht : Tracks { c with clock := c.clock + 1, misses := c.misses + 1 } r.tick :=
        { h with clock := congrArg (· + 1) h.clock, entries := h.entries, memory := h.memory }
      simp only [Option.map_none]
      by_cases hl : c.maxMemory < ScriptCache.sizeOf code
      · rw [if_pos hl]
        exact ⟨_, .oversized habsent (h.budget ▸ hl), ht⟩
      · rw [if_neg hl]
        have hs : ScriptCache.sizeOf code ≤ r.budget := h.budget ▸ Nat.le_of_not_lt hl
        rcases ht.makeRoom hf hw ha.tick hk hs with ⟨r', hr, ht'⟩
        refine ⟨_, .miss habsent hs hr, { ht' with entries := ?_, memory := ?_ }⟩
        · rw [List.map_append, ← ht'.entries, hr.remains.clock]
          simp only [LruK.tick, ← h.clock, List.map_singleton, Resident.entry_new]
        · rw [LruK.memory, LruK.charged_append, ht'.memory]
          rfl

end Tracks

/-! ### Lockstep -/

/-- A cache and a reference cache are alike. -/
structure Agrees (codes : List String) (c : ScriptCache α) (r : LruK α) : Prop where
  /-- The same scripts are there with the same artifacts; of their uses the latest are kept. -/
  entries : c.entries = r.residents.map (Resident.entry r.k)
  memory : c.currentMemory = r.memory
  contains : ∀ code ∈ codes, c.contains code = true ↔ ∃ x ∈ r.residents, x.code = code
  /-- The same script is to go next, and there is no choice. -/
  candidate : ∀ e, c.candidate? = some e ↔ ∃ x, r.IsVictim x ∧ x.entry r.k = e
  single : ∀ x y, r.IsVictim x → r.IsVictim y → x = y
  order : ∀ es : List (CacheEntry α), es.Perm c.entries → ScriptCache.least? c.k es = c.candidate?

/-- Calls that both serve alike: before and after each of them they agree, and the reference cache
has no other way to serve it than with the reply of the cache. -/
inductive Lockstep (codes : List String) :
    ScriptCache α → LruK α → List (CacheCall α) → Prop
  | done {c : ScriptCache α} {r : LruK α} (agree : Agrees codes c r) : Lockstep codes c r []
  | call {c : ScriptCache α} {r r' : LruK α} {call : CacheCall α} {calls : List (CacheCall α)}
      (agree : Agrees codes c r) (served : LruK.Serves r call r' (c.serve call).2)
      (only : ∀ r'' reply, LruK.Serves r call r'' reply → r'' = r' ∧ reply = (c.serve call).2)
      (rest : Lockstep codes (c.serve call).1 r' calls) : Lockstep codes c r (call :: calls)

theorem Tracks.agrees (h : Tracks c r) (hf : Faithful codes) (hw : r.Within codes) (ha : r.Apart)
    (hk : 1 ≤ r.k) : Agrees codes c r where
  entries := h.entries
  memory := h.memory
  contains _ hc := h.contains hf hw hc
  candidate := h.candidate ha hk
  single _ _ hx hy := ha.unique hx hy
  order _ hp := ScriptCache.least?_perm (h.rank_inj ha hk) hp

theorem Tracks.lockstep (h : Tracks c r) (hf : Faithful codes) (hw : r.Within codes) (ha : r.Apart)
    (hk : 1 ≤ r.k) (calls : List (CacheCall α))
    (hc : ∀ code ∈ calls.filterMap CacheCall.code?, code ∈ codes) : Lockstep codes c r calls := by
  induction calls generalizing c r with
  | nil => exact .done (h.agrees hf hw ha hk)
  | cons call calls ih =>
    have hcall : ∀ code ∈ call.code?, code ∈ codes := by
      intro code hm
      exact hc code (List.mem_filterMap.mpr ⟨call, List.mem_cons_self, hm⟩)
    have hrest : ∀ code ∈ calls.filterMap CacheCall.code?, code ∈ codes := by
      intro code hm
      rcases List.mem_filterMap.mp hm with ⟨call', hm, he⟩
      exact hc code (List.mem_filterMap.mpr ⟨call', List.mem_cons_of_mem _ hm, he⟩)
    rcases h.serve hf hw ha hk call hcall with ⟨r', hs, ht⟩
    have hw' := hs.within hw hcall
    have hk' : 1 ≤ r'.k := hs.k_eq ▸ hk
    refine .call (h.agrees hf hw ha hk) hs ?_ (ih ht hw' (hs.apart ha) hk' hrest)
    intro r'' reply hs'
    exact hs'.eq hs ha

/-- From the start on, the cache and LRU-K serve all calls alike. -/
theorem lockstep_of_faithful (k budget : Nat) (hk : 1 ≤ k) (calls : List (CacheCall α))
    (hf : Faithful (calls.filterMap CacheCall.code?)) :
    Lockstep (calls.filterMap CacheCall.code?) (ScriptCache.empty budget k) { k, budget } calls := by
  have ht : Tracks (ScriptCache.empty budget k : ScriptCache α) { k, budget } :=
    { k := Nat.max_eq_left hk, budget := rfl, clock := rfl, entries := rfl, memory := rfl }
  exact ht.lockstep hf nofun ⟨.nil, .nil, nofun⟩ hk calls fun _ h => h

/-- Two scripts where there is room for one. -/
theorem lockstep_of_two_scripts :
    let compile : CacheKey → String → String := fun _ code => code
    let calls := [.get "a" compile, .get "b" compile, .get "b" compile, .clear, .get "a" compile]
    1 ≤ 2 ∧ Faithful (calls.filterMap CacheCall.code?) ∧
      Lockstep (calls.filterMap CacheCall.code?) (ScriptCache.empty 513 2) { k := 2, budget := 513 }
        calls := by
  intro compile calls
  have hd : (["a", "b"].map CacheKey.ofCode).Nodup := by decide +kernel
  have hf : Faithful (calls.filterMap CacheCall.code?) := by
    intro x hx y hy
    have hsub : calls.filterMap CacheCall.code? ⊆ ["a", "b"] := by decide
    exact List.inj_on_of_nodup_map hd (hsub hx) (hsub hy)
  exact ⟨by decide, hf, lockstep_of_faithful 2 513 (by decide) calls hf⟩

end Scratchpad
