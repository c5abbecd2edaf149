import Mathlib.Algebra.GroupWithZero.Nat
import Mathlib.Data.List.Induction
import Mathlib.Data.List.Sort
import Scratchpad.Proofs.Cache.Agreement

/-!
The books of a cache. The memory that is charged is that of the entries and within the budget; every
look-up is a hit or a miss, and every miss is an entry, was evicted or dropped, or was too large.
Room is made by as few evictions as possible, in the order of the ranks.
-/
namespace Scratchpad

variable {α : Type}

/-! ### Requests -/

/-- What the users of a cache ask of it. -/
inductive CacheRequest (α : Type) where
  | lookUp (code : String) (compile : CacheKey → String → α)
  | contains (code : String)
  | clear
  | metrics

inductive CacheReply (α : Type) where
  | found (x : CacheLookup α)
  | flag (b : Bool)
  | cleared
  | metrics (m : CacheMetrics)

def CacheRequest.isLookUp : CacheRequest α → Bool
  | .lookUp .. => true
  | _ => false

/-- The uses of an entry are few, in order, and none of them is to come. -/
structure IsHistory (k now : Nat) (uses : List Nat) : Prop where
  pos : 1 ≤ uses.length
  length_le : uses.length ≤ k + 1
  falling : uses.Pairwise (· > ·)
  past : ∀ t ∈ uses, 1 ≤ t ∧ t ≤ now

namespace IsHistory

variable {k now : Nat} {uses : List Nat}

theorem new (k now : Nat) : IsHistory k (now + 1) [now + 1] where
  pos := Nat.le_refl 1
  length_le := Nat.le_add_left 1 k
  falling := List.pairwise_singleton _ _
  past t ht := by
    rw [List.mem_singleton.mp ht]
    exact ⟨Nat.succ_pos now, Nat.le_refl _⟩

theorem later (h : IsHistory k now uses) : IsHistory k (now + 1) uses :=
  { h with past := fun t ht => ⟨(h.past t ht).1, Nat.le_succ_of_le (h.past t ht).2⟩ }

theorem use (h : IsHistory k now uses) :
    IsHistory k (now + 1) (((now + 1) :: uses).take (k + 1)) where
  pos := by simp
  length_le := List.length_take_le _ _
  falling := by
    refine List.Pairwise.take (List.pairwise_cons.mpr ⟨fun t ht => ?_, h.falling⟩)
    exact Nat.lt_succ_of_le (h.past t ht).2
  past t ht := by
    rcases List.mem_cons.mp (List.mem_of_mem_take ht) with rfl | ht
    · exact ⟨Nat.succ_pos now, Nat.le_refl _⟩
    · exact h.later.past t ht

end IsHistory

namespace ScriptCache

section Requests
variable (c : ScriptCache α)

def answer : CacheRequest α → ScriptCache α × CacheReply α
  | .lookUp code compile =>
    let r := c.getOrCreate code compile
    (r.1, .found r.2)
  | .contains code => (c, .flag (c.contains code))
  | .clear => (c.clear, .cleared)
  | .metrics => (c, .metrics c.metrics)

/-- The cache after some requests. -/
def after (requests : List (CacheRequest α)) : ScriptCache α :=
  requests.foldl (fun c request => (c.answer request).1) c

/-- What is to be counted of some requests, each of which finds the cache as the ones before it have
left it. -/
def tally (count : ScriptCache α → CacheRequest α → Nat) :
    ScriptCache α → List (CacheRequest α) → Nat
  | _, [] => 0
  | c, request :: requests => count c request + tally count (c.answer request).1 requests

/-- The misses that are too large to be kept. -/
def refused : CacheRequest α → Nat
  | .lookUp code _ => if !c.contains code && c.maxMemory < sizeOf code then 1 else 0
  | _ => 0

/-- The entries that are dropped. -/
def dropped : CacheRequest α → Nat
  | .clear => c.size
  | _ => 0

theorem after_snoc (requests : List (CacheRequest α)) (request : CacheRequest α) :
    c.after (requests ++ [request]) = ((c.after requests).answer request).1 := by
  simp [after]

theorem tally_snoc (count : ScriptCache α → CacheRequest α → Nat)
    (requests : List (CacheRequest α)) (request : CacheRequest α) :
    tally count c (requests ++ [request]) =
      tally count c requests + count (c.after requests) request := by
  induction requests generalizing c with
  | nil => simp [tally, after]
  | cons r rs ih => simp [tally, after, ih, Nat.add_assoc]

/-! ### Compiling -/

/-- A look-up with a compiler that does something beside compiling. -/
def getOrCreateM {m : Type → Type} [Monad m] (code : String) (compile : CacheKey → String → m α) :
    m (ScriptCache α × CacheLookup α) :=
  let key := CacheKey.ofCode code
  let now := c.clock + 1
  match c.find? key with
  | some e =>
    pure ({ c with clock := now, hits := c.hits + 1, entries := c.touch key now c.entries },
      ⟨key, e.artifact, true⟩)
  | none => do
    let c := { c with clock := now, misses := c.misses + 1 }
    let artifact ← compile key code
    let size := sizeOf code
    if c.maxMemory < size then pure (c, ⟨key, artifact, false⟩)
    else
      let c := c.makeRoom size
      pure ({ c with
          entries := c.entries ++ [⟨key, artifact, size, [now]⟩]
          currentMemory := c.currentMemory + size },
        ⟨key, artifact, false⟩)

/-- A compiler that keeps a record of what it is asked for. -/
def recorded (compile : CacheKey → String → α) (key : CacheKey) (code : String) :
    StateM (List (CacheKey × String)) α := do
  modify (· ++ [(key, code)])
  return compile key code

/-- A script is compiled once on a miss and not at all on a hit. -/
theorem getOrCreateM_recorded (code : String) (compile : CacheKey → String → α)
    (log : List (CacheKey × String)) :
    (c.getOrCreateM code (recorded compile)).run log =
      (c.getOrCreate code compile,
        if c.contains code then log else log ++ [(.ofCode code, code)]) := by
  cases hf : c.find? (CacheKey.ofCode code) with
  | some e =>
    simp only [getOrCreateM, getOrCreate, contains, hf]
    rfl
  | none =>
    simp only [getOrCreateM, getOrCreate, contains, hf, recorded]
    by_cases hl : c.maxMemory < sizeOf code
    · simp only [if_pos hl]
      rfl
    · simp only [if_neg hl]
      rfl

end Requests

/-! ### The order of eviction -/

/-- The memory charged for some entries. -/
def charged (es : List (CacheEntry α)) : Nat := (es.map CacheEntry.size).sum

/-- The entries but for those with the key of one that is gone. -/
def without (gone es : List (CacheEntry α)) : List (CacheEntry α) :=
  es.filter fun e => !gone.any (·.key == e.key)

section Order
variable (c : ScriptCache α) (need n : Nat)

/-- The entries in the order in which they are to go. -/
def evictionOrder : List (CacheEntry α) := c.entries.mergeSort fun e f => !f.before c.k e

/-- There is room for so many bytes once the first `n` entries are gone. -/
def RoomAfter : Prop :=
  c.currentMemory + need ≤ c.maxMemory + charged (c.evictionOrder.take n)

/-- The first `n` entries go. -/
def evict : ScriptCache α :=
  { c with
    entries := without (c.evictionOrder.take n) c.entries
    currentMemory := c.currentMemory - charged (c.evictionOrder.take n)
    evictions := c.evictions + n }

/-- The cache evicts entries from the front of the order until there is room, and not one more. -/
structure MakesRoom (c' : ScriptCache α) : Prop where
  eq : c' = c.evict n
  size : c'.size + n = c.size
  enough : c.RoomAfter need n
  least : ∀ m < n, ¬ c.RoomAfter need m

/-- No two entries have one key or were used last at one time, and the memory is that of the
entries. -/
structure Sound : Prop where
  keys : (c.entries.map CacheEntry.key).Nodup
  uses : (c.entries.map CacheEntry.lastUse).Nodup
  memory : c.currentMemory = charged c.entries

end Order

variable {c : ScriptCache α} {e : CacheEntry α} {es : List (CacheEntry α)} {need n : Nat}
  {code : String} {compile : CacheKey → String → α}

theorem perm_without_one (he : e ∈ es) (hn : (es.map CacheEntry.key).Nodup) :
    (e :: es.filter fun f => f.key != e.key).Perm es := by
  induction es with
  | nil => cases he
  | cons f fs ih =>
    rw [List.map_cons, List.nodup_cons] at hn
    rcases List.mem_cons.mp he with rfl | he
    · have hrest : fs.filter (fun f => f.key != e.key) = fs := by
        refine List.filter_eq_self.mpr fun f hf => ?_
        simpa using fun hk => hn.1 (List.mem_map.mpr ⟨f, hf, hk⟩)
      rw [List.filter_cons_of_neg (by simp), hrest]
    · have hne : f.key ≠ e.key := fun hk => hn.1 (List.mem_map.mpr ⟨e, he, hk.symm⟩)
      rw [List.filter_cons_of_pos (by simpa using hne)]
      exact (List.Perm.swap f e _).trans ((ih he hn.2).cons f)

theorem charged_perm {fs : List (CacheEntry α)} (h : es.Perm fs) : charged es = charged fs :=
  (h.map _).sum_nat

theorem without_cons (gone : List (CacheEntry α)) :
    without (e :: gone) es = without gone (es.filter fun f => f.key != e.key) := by
  rw [without, without, List.filter_filter]
  refine List.filter_congr fun f _ => ?_
  simp [Bool.and_comm, bne, BEq.comm]

namespace Sound

theorem rank_inj (h : c.Sound) :
    ∀ e ∈ c.entries, ∀ f ∈ c.entries, e.rank c.k = f.rank c.k → e = f := by
  intro e he f hf hr
  have hl : e.lastUse = f.lastUse := congrArg (fun p => (ofLex p).2) hr
  exact List.inj_on_of_nodup_map h.uses he hf hl

theorem erase (h : c.Sound) (he : e ∈ c.entries) : (c.erase e).Sound where
  keys := h.keys.sublist (List.filter_sublist.map _)
  uses := h.uses.sublist (List.filter_sublist.map _)
  memory := by
    have hp := charged_perm (perm_without_one he h.keys)
    show c.currentMemory - e.size = charged (c.entries.filter fun f => f.key != e.key)
    rw [h.memory, ← hp]
    exact Nat.add_sub_cancel_left _ _

theorem sorted_evictionOrder (c : ScriptCache α) :
    c.evictionOrder.Pairwise fun e f => e.rank c.k ≤ f.rank c.k := by
  have hle (e f : CacheEntry α) : (!f.before c.k e) = true ↔ e.rank c.k ≤ f.rank c.k := by
    rw [Bool.not_eq_true', ← Bool.not_eq_true, CacheEntry.before_iff, not_lt]
  refine (List.pairwise_mergeSort ?_ ?_ c.entries).imp fun hef => (hle _ _).mp hef
  · intro e f g hef hfg
    exact (hle _ _).mpr (((hle _ _).mp hef).trans ((hle _ _).mp hfg))
  · intro e f
    rw [Bool.or_eq_true, hle, hle]
    exact le_total _ _

/-- The candidate stands first, and eviction does not change the order of the others. -/
theorem evictionOrder_eq (h : c.Sound) (he : c.candidate? = some e) :
    c.evictionOrder = e :: (c.erase e).evictionOrder := by
  have hinj := h.rank_inj
  rcases (least?_eq_some hinj).mp he with ⟨hm, hle⟩
  have hp : c.evictionOrder.Perm c.entries := List.mergeSort_perm _ _
  have hq : (e :: (c.erase e).evictionOrder).Perm c.entries :=
    ((List.mergeSort_perm _ _).cons e).trans (perm_without_one hm h.keys)
  refine List.Perm.eq_of_pairwise ?_
    (sorted_evictionOrder c) (List.pairwise_cons.mpr ⟨?_, sorted_evictionOrder (c.erase e)⟩)
    (hp.trans hq.symm)
  · intro f g hf hg hfg hgf
    exact hinj f (hp.subset hf) g (hq.subset hg) (le_antisymm hfg hgf)
  · intro f hf
    exact hle f (hq.subset (List.mem_cons_of_mem _ hf))

theorem evict_succ (h : c.Sound) (he : c.candidate? = some e) (n : Nat) :
    c.evict (n + 1) = (c.erase e).evict n := by
  have hn : c.evictions + (n + 1) = c.evictions + 1 + n := by omega
  simp only [evict, h.evictionOrder_eq he, List.take_succ_cons, without_cons, charged,
    List.map_cons, List.sum_cons, ← Nat.sub_sub, hn]
  rfl

theorem charged_erase (h : c.Sound) (he : e ∈ c.entries) :
    e.size + (c.erase e).currentMemory = c.currentMemory := by
  have hp := charged_perm (perm_without_one he h.keys)
  rw [(h.erase he).memory, h.memory, ← hp]
  rfl

/-- The candidate goes, and then as many as it takes. -/
theorem makesRoom_succ {c' : ScriptCache α} (h : c.Sound) (he : c.candidate? = some e)
    (hfull : c.maxMemory < c.currentMemory + need) (hr : (c.erase e).MakesRoom need n c') :
    c.MakesRoom need (n + 1) c' := by
  have hm := least?_mem he
  have hcur := h.charged_erase hm
  have hmax : (c.erase e).maxMemory = c.maxMemory := rfl
  have hcharged (m : Nat) : charged (c.evictionOrder.take (m + 1)) =
      e.size + charged ((c.erase e).evictionOrder.take m) := by
    simp [h.evictionOrder_eq he, charged]
  refine ⟨hr.eq.trans (h.evict_succ he n).symm, ?_, ?_, ?_⟩
  · have hlen : (c.erase e).size + 1 = c.size := (perm_without_one hm h.keys).length_eq
    have hsize := hr.size
    omega
  · have henough := hr.enough
    simp only [RoomAfter, hcharged, hmax] at henough ⊢
    omega
  · intro m hm
    cases m with
    | zero =>
      simp only [RoomAfter, List.take_zero, charged, List.map_nil, List.sum_nil]
      omega
    | succ m =>
      have hleast := hr.least m (Nat.lt_of_succ_lt_succ hm)
      simp only [RoomAfter, hcharged, hmax] at hleast ⊢
      omega

theorem makesRoom_zero (hfit : c.currentMemory + need ≤ c.maxMemory) : c.MakesRoom need 0 c where
  eq := by simp [evict, without, charged]
  size := rfl
  enough := by simpa [RoomAfter, charged] using hfit
  least := nofun

theorem makeRoom (h : c.Sound) (hs : need ≤ c.maxMemory) :
    (c.makeRoom need).Sound ∧ ∃ n, c.MakesRoom need n (c.makeRoom need) := by
  induction hn : c.size using Nat.strong_induction_on generalizing c with
  | h size ih =>
    unfold ScriptCache.makeRoom
    by_cases hfull : c.maxMemory < c.currentMemory + need
    · rw [if_pos hfull]
      split
      · next e he =>
        have hm := least?_mem he
        rcases ih _ (hn ▸ c.size_erase_lt hm) (h.erase hm) hs rfl with ⟨hsound, n, hr⟩
        exact ⟨hsound, n + 1, h.makesRoom_succ he hfull hr⟩
      · -- Nothing is left, and then what is needed fits.
        next he =>
        rw [h.memory, least?_eq_none.mp he] at hfull
        simp only [charged, List.map_nil, List.sum_nil] at hfull
        omega
    · rw [if_neg hfull]
      exact ⟨h, 0, makesRoom_zero (Nat.le_of_not_lt hfull)⟩

end Sound

/-! ### What a use changes -/

theorem map_touch {β : Type} (f : CacheEntry α → β) (c : ScriptCache α) (key : CacheKey) (now : Nat)
    (hf : ∀ (e : CacheEntry α) (uses : List Nat), f { e with history := uses } = f e) :
    (c.touch key now es).map f = es.map f := by
  induction es with
  | nil => rfl
  | cons e es ih =>
    rw [touch]
    split
    · rw [List.map_cons, List.map_cons, hf]
    · rw [List.map_cons, List.map_cons, ih]

theorem mem_touch_iff {key : CacheKey} {now : Nat} (h : e ∈ c.touch key now es) :
    e ∈ es ∨ ∃ f ∈ es, e = { f with history := (now :: f.history).take (c.k + 1) } := by
  induction es with
  | nil => cases h
  | cons f es ih =>
    rw [touch] at h
    split at h
    · rcases List.mem_cons.mp h with rfl | h
      · exact .inr ⟨f, List.mem_cons_self, rfl⟩
      · exact .inl (List.mem_cons_of_mem _ h)
    · rcases List.mem_cons.mp h with rfl | h
      · exact .inl List.mem_cons_self
      · rcases ih h with h | ⟨g, hg, he⟩
        · exact .inl (List.mem_cons_of_mem _ h)
        · exact .inr ⟨g, List.mem_cons_of_mem _ hg, he⟩

/-- The entry that is used was used last now, and the others were before. -/
theorem nodup_lastUse_touch {key : CacheKey} {now : Nat}
    (hn : (es.map CacheEntry.lastUse).Nodup) (hp : ∀ e ∈ es, e.lastUse < now) :
    ((c.touch key now es).map CacheEntry.lastUse).Nodup := by
  induction es with
  | nil => exact .nil
  | cons e es ih =>
    rw [List.map_cons, List.nodup_cons] at hn
    have hps : ∀ f ∈ es, f.lastUse < now := fun f hf => hp f (List.mem_cons_of_mem _ hf)
    rw [touch]
    split
    · rw [List.map_cons, List.nodup_cons]
      refine ⟨fun hm => ?_, hn.2⟩
      rcases List.mem_map.mp hm with ⟨f, hf, he⟩
      exact Nat.ne_of_lt (hps f hf) he
    · rw [List.map_cons, List.nodup_cons]
      refine ⟨fun hm => ?_, ih hn.2 hps⟩
      rcases List.mem_map.mp hm with ⟨f, hf, he⟩
      rcases mem_touch_iff hf with hf | ⟨g, -, rfl⟩
      · exact hn.1 (List.mem_map.mpr ⟨f, hf, he⟩)
      · exact Nat.ne_of_lt (hp e List.mem_cons_self) he.symm

/-! ### Look-ups -/

theorem contains_iff :
    c.contains code = true ↔ CacheKey.ofCode code ∈ c.entries.map CacheEntry.key := by
  simp [contains, find?, List.find?_isSome]

/-- The cache when it has missed a script and not made room for it yet. -/
def missed (c : ScriptCache α) : ScriptCache α :=
  { c with clock := c.clock + 1, misses := c.misses + 1 }

theorem getOrCreate_hit (hf : c.find? (.ofCode code) = some e) : c.getOrCreate code compile =
    ({ c with
        clock := c.clock + 1
        hits := c.hits + 1
        entries := c.touch (.ofCode code) (c.clock + 1) c.entries },
      ⟨.ofCode code, e.artifact, true⟩) := by
  simp only [getOrCreate, hf]

theorem getOrCreate_large (hf : c.find? (.ofCode code) = none) (hl : c.maxMemory < sizeOf code) :
    c.getOrCreate code compile =
      (missed c, ⟨.ofCode code, compile (.ofCode code) code, false⟩) := by
  simp only [getOrCreate, hf, missed, if_pos hl]

theorem getOrCreate_miss (hf : c.find? (.ofCode code) = none) (hs : sizeOf code ≤ c.maxMemory)
    (hr : (missed c).makeRoom (sizeOf code) = (missed c).evict n) : c.getOrCreate code compile =
      ({ (missed c).evict n with
          entries := ((missed c).evict n).entries ++
            [⟨.ofCode code, compile (.ofCode code) code, sizeOf code, [c.clock + 1]⟩]
          currentMemory := ((missed c).evict n).currentMemory + sizeOf code },
        ⟨.ofCode code, compile (.ofCode code) code, false⟩) := by
  rw [← hr]
  simp only [getOrCreate, hf, missed, if_neg (Nat.not_lt.mpr hs)]

/-! ### The books -/

/-- The entry was made when a script was looked up, and it is charged for that script. -/
def Stems (requests : List (CacheRequest α)) (e : CacheEntry α) : Prop :=
  ∃ code compile, CacheRequest.lookUp code compile ∈ requests ∧ e.key = .ofCode code ∧
    e.artifact = compile e.key code ∧ e.size = sizeOf code

/-- The books of a cache after some requests, of which so many misses were refused and so many
entries dropped. -/
structure Balanced (k maxMemory : Nat) (requests : List (CacheRequest α)) (refused dropped : Nat)
    (c : ScriptCache α) : Prop extends Sound c where
  order : c.k = k
  budget : c.maxMemory = maxMemory
  bounded : c.currentMemory ≤ maxMemory
  stems : ∀ e ∈ c.entries, Stems requests e
  lookUps : c.hits + c.misses = requests.countP CacheRequest.isLookUp
  misses : c.misses = c.size + c.evictions + refused + dropped
  histories : ∀ e ∈ c.entries, IsHistory k c.clock e.history

namespace Balanced

variable {k maxMemory r d : Nat} {requests : List (CacheRequest α)} {request : CacheRequest α}

theorem lastUse_lt (h : Balanced k maxMemory requests r d c) :
    ∀ e ∈ c.entries, e.lastUse < c.clock + 1 := by
  intro e he
  rw [CacheEntry.lastUse]
  cases hu : e.history with
  | nil => exact Nat.succ_pos _
  | cons t ts => exact Nat.lt_succ_of_le ((h.histories e he).past t (hu ▸ List.mem_cons_self)).2

theorem stems_snoc (h : ∀ e ∈ es, Stems requests e) :
    ∀ e ∈ es, Stems (requests ++ [request]) e := by
  intro e he
  rcases h e he with ⟨code, compile, hm, hrest⟩
  exact ⟨code, compile, List.mem_append_left _ hm, hrest⟩

/-- A request that only reads. -/
theorem read (h : Balanced k maxMemory requests r d c) (hl : request.isLookUp = false) :
    Balanced k maxMemory (requests ++ [request]) r d c :=
  { h with
    stems := stems_snoc h.stems
    lookUps := by rw [h.lookUps, List.countP_append, List.countP_singleton]; simp [hl] }

theorem clear (h : Balanced k maxMemory requests r d c) :
    Balanced k maxMemory (requests ++ [.clear]) r (d + c.size) c.clear where
  keys := .nil
  uses := .nil
  memory := rfl
  order := h.order
  budget := h.budget
  bounded := Nat.zero_le _
  stems := nofun
  lookUps := (h.read rfl).lookUps
  misses := by
    have hm := h.misses
    simp only [ScriptCache.clear, size, List.length_nil] at hm ⊢
    omega
  histories := nofun

theorem hit (h : Balanced k maxMemory requests r d c) (code : String)
    (compile : CacheKey → String → α) (key : CacheKey) :
    Balanced k maxMemory (requests ++ [.lookUp code compile]) r d
      { c with
        clock := c.clock + 1
        hits := c.hits + 1
        entries := c.touch key (c.clock + 1) c.entries } where
  keys := by
    show ((c.touch key _ c.entries).map CacheEntry.key).Nodup
    rw [map_touch _ _ _ _ fun _ _ => rfl]
    exact h.keys
  uses := nodup_lastUse_touch h.uses h.lastUse_lt
  memory := by
    show c.currentMemory = charged (c.touch key _ c.entries)
    rw [charged, map_touch _ _ _ _ fun _ _ => rfl]
    exact h.memory
  order := h.order
  budget := h.budget
  bounded := h.bounded
  stems e he := by
    rcases mem_touch_iff he with he | ⟨f, hf, rfl⟩
    · exact stems_snoc h.stems e he
    · exact stems_snoc h.stems f hf
  lookUps := by
    have hl := h.lookUps
    rw [List.countP_append, ← hl]
    simp only [List.countP_singleton, CacheRequest.isLookUp, if_true]
    omega
  misses := by
    have hkeys : (c.touch key (c.clock + 1) c.entries).map CacheEntry.key =
        c.entries.map CacheEntry.key := map_touch CacheEntry.key c key _ fun _ _ => rfl
    have hlen := congrArg List.length hkeys
    simp only [List.length_map] at hlen
    simp only [size, hlen]
    exact h.misses
  histories e he := by
    rcases mem_touch_iff he with he | ⟨f, hf, rfl⟩
    · exact (h.histories e he).later
    · rw [h.order]
      exact (h.histories f hf).use

theorem refuse (h : Balanced k maxMemory requests r d c) (code : String)
    (compile : CacheKey → String → α) :
    Balanced k maxMemory (requests ++ [.lookUp code compile]) (r + 1) d (missed c) where
  keys := h.keys
  uses := h.uses
  memory := h.memory
  order := h.order
  budget := h.budget
  bounded := h.bounded
  stems := stems_snoc h.stems
  lookUps := by
    have hl := h.lookUps
    rw [List.countP_append, ← hl]
    rfl
  misses := by
    have hm := h.misses
    simp only [missed, size] at hm ⊢
    omega
  histories e he := (h.histories e he).later

/-- A script is put in when there is room. -/
theorem insert (h : Balanced k maxMemory requests r d c)
    (compile : CacheKey → String → α) (hf : c.find? (.ofCode code) = none)
    (hs : sizeOf code ≤ maxMemory) : ∃ n, (missed c).MakesRoom (sizeOf code) n
      ((missed c).makeRoom (sizeOf code)) ∧
    Balanced k maxMemory (requests ++ [.lookUp code compile]) r d
      { (missed c).evict n with
        entries := ((missed c).evict n).entries ++
          [⟨.ofCode code, compile (.ofCode code) code, sizeOf code, [c.clock + 1]⟩]
        currentMemory := ((missed c).evict n).currentMemory + sizeOf code } := by
  have hm : (missed c).Sound := ⟨h.keys, h.uses, h.memory⟩
  rcases hm.makeRoom (h.budget ▸ hs) with ⟨hsound, n, hr⟩
  refine ⟨n, hr, ?_⟩
  rw [hr.eq] at hsound
  have hsub : ∀ e ∈ ((missed c).evict n).entries, e ∈ c.entries := fun e => List.mem_of_mem_filter
  exact {
    keys := by
      refine LruK.nodup_map_snoc hsound.keys fun e he => ?_
      simpa using List.find?_eq_none.mp hf e (hsub e he)
    uses := LruK.nodup_map_snoc hsound.uses fun e he => Nat.ne_of_lt (h.lastUse_lt e (hsub e he))
    memory := by
      show ((missed c).evict n).currentMemory + sizeOf code = charged (_ ++ [_])
      rw [hsound.memory]
      simp [charged]
    order := h.order
    budget := h.budget
    bounded := by
      have henough := hr.enough
      have hb : (missed c).maxMemory = maxMemory := h.budget
      simp only [RoomAfter, evict, hb] at henough ⊢
      omega
    stems := by
      intro e he
      rcases List.mem_append.mp he with he | he
      · exact stems_snoc h.stems e (hsub e he)
      · rw [List.mem_singleton.mp he]
        exact ⟨code, compile, List.mem_append_right _ List.mem_cons_self, rfl, rfl, rfl⟩
    lookUps := by
      have hl := h.lookUps
      rw [List.countP_append, ← hl]
      rfl
    misses := by
      have hsize := hr.size
      have hmiss := h.misses
      rw [hr.eq] at hsize
      simp only [size, List.length_append, List.length_singleton, missed, evict] at hsize hmiss ⊢
      omega
    histories := by
      intro e he
      rcases List.mem_append.mp he with he | he
      · exact (h.histories e (hsub e he)).later
      · rw [List.mem_singleton.mp he]
        exact .new k c.clock }

theorem answer (h : Balanced k maxMemory requests r d c) (request : CacheRequest α) :
    Balanced k maxMemory (requests ++ [request]) (r + c.refused request) (d + c.dropped request)
      (c.answer request).1 := by
  cases request with
  | contains code => exact h.read rfl
  | clear => exact h.clear
  | metrics => exact h.read rfl
  | lookUp code compile =>
    show Balanced _ _ _ _ _ (c.getOrCreate code compile).1
    cases hf : c.find? (.ofCode code) with
    | some e =>
      have hr : c.refused (.lookUp code compile) = 0 := by simp [refused, contains, hf]
      rw [getOrCreate_hit hf, hr]
      exact h.hit code compile _
    | none =>
      by_cases hl : c.maxMemory < sizeOf code
      · have hr : c.refused (.lookUp code compile) = 1 := by simp [refused, contains, hf, hl]
        rw [getOrCreate_large hf hl, hr]
        exact h.refuse code compile
      · have hr : c.refused (.lookUp code compile) = 0 := by simp [refused, contains, hf, hl]
        have hs := Nat.le_of_not_lt hl
        rcases h.insert compile hf (h.budget ▸ hs) with ⟨n, hroom, hb⟩
        rw [getOrCreate_miss hf hs hroom.eq, hr]
        exact hb

theorem empty (k maxMemory : Nat) (hk : 1 ≤ k) :
    Balanced k maxMemory [] 0 0 (ScriptCache.empty maxMemory k : ScriptCache α) where
  keys := .nil
  uses := .nil
  memory := rfl
  order := Nat.max_eq_left hk
  budget := rfl
  bounded := Nat.zero_le _
  stems := nofun
  lookUps := rfl
  misses := rfl
  histories := nofun

theorem after (h : Balanced k maxMemory [] 0 0 c) (requests : List (CacheRequest α)) :
    Balanced k maxMemory requests (tally refused c requests) (tally dropped c requests)
      (c.after requests) := by
  induction requests using List.reverseRecOn with
  | nil => exact h
  | append_singleton requests request ih =>
    rw [after_snoc, tally_snoc, tally_snoc]
    exact ih.answer request

end Balanced

/-! ### One look-up -/

/-- What a look-up of a script that fits the budget leads to. Room is made only for a script that is
not there, by the shortest prefix of the order of eviction that makes it. -/
structure Settles (c : ScriptCache α) (code : String) (compile : CacheKey → String → α) :
    Prop where
  resident : (c.getOrCreate code compile).1.contains code = true
  hit : c.contains code = true → (c.getOrCreate code compile).2.hit = true ∧
    (c.getOrCreate code compile).1.evictions = c.evictions ∧
    (c.getOrCreate code compile).1.entries.map CacheEntry.key = c.entries.map CacheEntry.key
  miss : c.contains code = false → (c.getOrCreate code compile).2.hit = false ∧
    ∃ n ≤ c.size, c.RoomAfter (sizeOf code) n ∧ (∀ m < n, ¬ c.RoomAfter (sizeOf code) m) ∧
      (c.getOrCreate code compile).1.evictions = c.evictions + n ∧
      (c.getOrCreate code compile).1.entries = without (c.evictionOrder.take n) c.entries ++
        [⟨.ofCode code, compile (.ofCode code) code, sizeOf code, [c.clock + 1]⟩]

theorem Sound.settles (h : c.Sound) (hs : sizeOf code ≤ c.maxMemory)
    (compile : CacheKey → String → α) : Settles c code compile := by
  cases hf : c.find? (.ofCode code) with
  | some e =>
    have hkeys : (c.getOrCreate code compile).1.entries.map CacheEntry.key =
        c.entries.map CacheEntry.key := by
      rw [getOrCreate_hit hf]
      exact map_touch _ _ _ _ fun _ _ => rfl
    have hc : c.contains code = true := by simp [contains, hf]
    refine ⟨?_, fun _ => ⟨?_, ?_, hkeys⟩, fun hn => ?_⟩
    · rw [contains_iff, hkeys]
      exact contains_iff.mp hc
    · rw [getOrCreate_hit hf]
    · rw [getOrCreate_hit hf]
    · simp [hc] at hn
  | none =>
    have hm : (missed c).Sound := ⟨h.keys, h.uses, h.memory⟩
    rcases hm.makeRoom hs with ⟨-, n, hr⟩
    have he : c.getOrCreate code compile = _ := getOrCreate_miss hf hs hr.eq
    refine ⟨?_, fun hc => ?_, fun _ => ⟨?_, n, ?_, hr.enough, hr.least, ?_, ?_⟩⟩
    · rw [contains_iff, he]
      simp
    · simp [contains, hf] at hc
    · rw [he]
    · exact hr.size ▸ Nat.le_add_left _ _
    · rw [he]
      rfl
    · rw [he]
      rfl

/-- Whatever is asked of a cache, its books balance; a look-up compiles a script once if it is not
there and not at all if it is, and what fits the budget is there afterwards. -/
theorem books_balance (k maxMemory : Nat) (hk : 1 ≤ k) (requests : List (CacheRequest α)) :
    let c₀ : ScriptCache α := .empty maxMemory k
    let c := c₀.after requests
    Balanced k maxMemory requests (tally refused c₀ requests) (tally dropped c₀ requests) c ∧
      ∀ (code : String) (compile : CacheKey → String → α),
        (∀ log, (c.getOrCreateM code (recorded compile)).run log =
          (c.getOrCreate code compile,
            if c.contains code then log else log ++ [(.ofCode code, code)])) ∧
        (sizeOf code ≤ maxMemory → Settles c code compile) := by
  intro c₀ c
  have h : Balanced k maxMemory requests _ _ c := (Balanced.empty k maxMemory hk).after requests
  refine ⟨h, fun code compile => ⟨c.getOrCreateM_recorded code compile, fun hs => ?_⟩⟩
  exact h.toSound.settles (h.budget.symm ▸ hs) compile

/-- There is room for one script of one letter: the second one drives the first one out, longer ones
are refused, and what is there is dropped. -/
theorem books_balance_of_history :
    let compile : CacheKey → String → String := fun _ code => code
    let requests := [.lookUp "a" compile, .lookUp "b" compile, .contains "b", .lookUp "b" compile,
      .lookUp "ab" compile, .metrics, .clear, .lookUp "a" compile]
    let c₀ : ScriptCache String := .empty 513 2
    let c := c₀.after requests
    1 ≤ 2 ∧ sizeOf "b" ≤ 513 ∧ tally refused c₀ requests = 1 ∧ tally dropped c₀ requests = 1 ∧
      Balanced 2 513 requests (tally refused c₀ requests) (tally dropped c₀ requests) c ∧
      Settles c "b" compile := by
  intro compile requests c₀ c
  have h := books_balance 2 513 (by decide) requests
  have ht : tally refused c₀ requests = 1 ∧ tally dropped c₀ requests = 1 := by decide +kernel
  refine ⟨by decide, by decide, ht.1, ht.2, h.1, ?_⟩
  exact (h.2 "b" compile).2 (by decide)

end ScriptCache

end Scratchpad
