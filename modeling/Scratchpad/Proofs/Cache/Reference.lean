import Mathlib.Data.Prod.Lex
import Mathlib.Data.List.Nodup
import Scratchpad.ScriptCache

/-!
LRU-K as it is usually described: every script in the cache has the times of all its uses, and when
room is needed the script goes whose k-th most recent use lies furthest back. Which of several such
scripts would go is left open here; it turns out that there is only one.
-/
namespace Scratchpad

/-- A script in the cache. -/
structure Resident (α : Type) where
  code : String
  artifact : α
  /-- Times of all uses since the script came in, last one first. -/
  uses : List Nat

/-- The reference cache. -/
structure LruK (α : Type) where
  k : Nat
  budget : Nat
  residents : List (Resident α) := []
  clock : Nat := 0

/-- What the users of a cache do with it. -/
inductive CacheCall (α : Type) where
  | get (code : String) (compile : CacheKey → String → α)
  | clear

/-- The script that a call looks up. -/
def CacheCall.code? {α : Type} : CacheCall α → Option String
  | .get code _ => some code
  | .clear => none

variable {α : Type}

namespace Resident

variable (x : Resident α)

def lastUse : Nat := x.uses.head?.getD 0

/-- The k-th most recent use, or zero if there were fewer, and then the last one. -/
def rank (k : Nat) : Nat ×ₗ Nat := toLex ((x.uses[k - 1]?).getD 0, x.lastUse)

/-- Notes a use of a script. -/
def use (code : String) (now : Nat) : Resident α :=
  if x.code = code then { x with uses := now :: x.uses } else x

@[simp] theorem code_use (code : String) (now : Nat) : (x.use code now).code = x.code := by
  unfold use
  split <;> rfl

end Resident

namespace LruK

variable {r r' r'' : LruK α} {x y : Resident α} {code : String} {need : Nat} {call : CacheCall α}
  {reply reply' : Option (α × Bool)}

/-- Memory charged for a list of scripts. -/
def charged : List (Resident α) → Nat
  | [] => 0
  | x :: xs => ScriptCache.sizeOf x.code + charged xs

def memory (r : LruK α) : Nat := charged r.residents

/-- No script is to go before `x`. -/
def IsVictim (r : LruK α) (x : Resident α) : Prop :=
  x ∈ r.residents ∧ ∀ y ∈ r.residents, x.rank r.k ≤ y.rank r.k

def without (r : LruK α) (code : String) : LruK α :=
  { r with residents := r.residents.filter fun x => x.code != code }

def tick (r : LruK α) : LruK α := { r with clock := r.clock + 1 }

/-- Evicts one script after the other until `need` more bytes fit. -/
inductive Evicts (need : Nat) : LruK α → LruK α → Prop
  | enough {r : LruK α} (fits : r.memory + need ≤ r.budget) : Evicts need r r
  | evict {r r' : LruK α} {x : Resident α} (full : r.budget < r.memory + need)
      (victim : r.IsVictim x) (rest : Evicts need (r.without x.code) r') : Evicts need r r'

/-- What a call does to the reference cache; its reply is the artifact, and whether it was there. -/
inductive Serves : LruK α → CacheCall α → LruK α → Option (α × Bool) → Prop
  | hit {r : LruK α} {x : Resident α} {code : String} {compile : CacheKey → String → α}
      (found : x ∈ r.residents) (named : x.code = code) :
      Serves r (.get code compile)
        { r.tick with residents := r.residents.map (·.use code (r.clock + 1)) }
        (some (x.artifact, true))
  | oversized {r : LruK α} {code : String} {compile : CacheKey → String → α}
      (absent : ∀ x ∈ r.residents, x.code ≠ code) (large : r.budget < ScriptCache.sizeOf code) :
      Serves r (.get code compile) r.tick (some (compile (.ofCode code) code, false))
  | miss {r r' : LruK α} {code : String} {compile : CacheKey → String → α}
      (absent : ∀ x ∈ r.residents, x.code ≠ code) (small : ScriptCache.sizeOf code ≤ r.budget)
      (room : Evicts (ScriptCache.sizeOf code) r.tick r') :
      Serves r (.get code compile)
        { r' with residents := r'.residents ++ [⟨code, compile (.ofCode code) code, [r'.clock]⟩] }
        (some (compile (.ofCode code) code, false))
  | clear {r : LruK α} : Serves r .clear { r with residents := [] } none

/-! ### There is one victim -/

/-- No script is there twice, and no two scripts were used at the same time. -/
structure Apart (r : LruK α) : Prop where
  codes : (r.residents.map Resident.code).Nodup
  uses : (r.residents.map Resident.lastUse).Nodup
  past : ∀ x ∈ r.residents, x.lastUse ≤ r.clock

namespace Apart

/-- Ranks tell the scripts apart, for the last use is part of them. -/
theorem rank_inj (h : r.Apart) (hx : x ∈ r.residents) (hy : y ∈ r.residents)
    (he : x.rank r.k = y.rank r.k) : x = y := by
  have hl : x.lastUse = y.lastUse := congrArg (fun p => (ofLex p).2) he
  exact List.inj_on_of_nodup_map h.uses hx hy hl

theorem unique (h : r.Apart) (hx : r.IsVictim x) (hy : r.IsVictim y) : x = y :=
  h.rank_inj hx.1 hy.1 (le_antisymm (hx.2 y hy.1) (hy.2 x hx.1))

theorem same (h : r.Apart) (hx : x ∈ r.residents) (hy : y ∈ r.residents)
    (hc : x.code = y.code) : x = y :=
  List.inj_on_of_nodup_map h.codes hx hy hc

theorem without (h : r.Apart) (code : String) : (r.without code).Apart where
  codes := h.codes.sublist (List.filter_sublist.map _)
  uses := h.uses.sublist (List.filter_sublist.map _)
  past x hx := h.past x (List.mem_of_mem_filter hx)

theorem tick (h : r.Apart) : r.tick.Apart where
  codes := h.codes
  uses := h.uses
  past x hx := Nat.le_succ_of_le (h.past x hx)

/-- A list of scripts in which one use was noted. -/
theorem nodup_lastUse_use {xs : List (Resident α)} {now : Nat}
    (hc : (xs.map Resident.code).Nodup) (hu : (xs.map Resident.lastUse).Nodup)
    (hp : ∀ x ∈ xs, x.lastUse < now) :
    ((xs.map (·.use code now)).map Resident.lastUse).Nodup := by
  rw [List.map_map]
  refine List.Nodup.map_on ?_ (List.Nodup.of_map _ hc)
  intro x hx y hy he
  have hxn := hp x hx
  have hyn := hp y hy
  simp only [Function.comp_apply, Resident.use] at he
  by_cases hcx : x.code = code
  · by_cases hcy : y.code = code
    · exact List.inj_on_of_nodup_map hc hx hy (hcx.trans hcy.symm)
    · rw [if_pos hcx, if_neg hcy] at he
      exact absurd he (Nat.ne_of_gt hyn)
  · by_cases hcy : y.code = code
    · rw [if_neg hcx, if_pos hcy] at he
      exact absurd he (Nat.ne_of_lt hxn)
    · rw [if_neg hcx, if_neg hcy] at he
      exact List.inj_on_of_nodup_map hu hx hy he

theorem use (h : r.Apart) (code : String) :
    LruK.Apart { r.tick with residents := r.residents.map (·.use code (r.clock + 1)) } where
  codes := by
    rw [List.map_map]
    have hf : Resident.code ∘ (·.use code (r.clock + 1)) = Resident.code (α := α) := by
      funext x
      exact x.code_use code _
    rw [hf]
    exact h.codes
  uses := nodup_lastUse_use h.codes h.uses fun x hx => Nat.lt_succ_of_le (h.past x hx)
  past := by
    intro y hy
    rcases List.mem_map.mp hy with ⟨x, hx, rfl⟩
    show (x.use code (r.clock + 1)).lastUse ≤ r.clock + 1
    unfold Resident.use
    split
    · exact Nat.le_refl _
    · exact Nat.le_succ_of_le (h.past x hx)

end Apart

/-- What eviction leaves. -/
structure Remains (r r' : LruK α) : Prop where
  k : r'.k = r.k
  budget : r'.budget = r.budget
  clock : r'.clock = r.clock
  residents : r'.residents.Sublist r.residents

theorem Evicts.remains (he : Evicts need r r') : Remains r r' := by
  induction he with
  | enough _ => exact ⟨rfl, rfl, rfl, .refl _⟩
  | evict _ _ _ ih => exact { ih with residents := ih.residents.trans List.filter_sublist }

theorem Evicts.apart (he : Evicts need r r') (h : r.Apart) : r'.Apart := by
  induction he with
  | enough _ => exact h
  | evict _ _ _ ih => exact ih (h.without _)

theorem Evicts.eq (h₁ : Evicts need r r') (h₂ : Evicts need r r'') (h : r.Apart) : r' = r'' := by
  induction h₁ with
  | enough fits =>
    cases h₂ with
    | enough _ => rfl
    | evict full _ _ => omega
  | evict full victim _ ih =>
    cases h₂ with
    | enough fits => omega
    | evict _ victim' rest =>
      rw [h.unique victim victim'] at ih
      exact ih rest (h.without _)

/-! ### Calls -/

theorem nodup_map_snoc {β γ : Type} {f : β → γ} {xs : List β} {y : β} (h : (xs.map f).Nodup)
    (hy : ∀ x ∈ xs, f x ≠ f y) : ((xs ++ [y]).map f).Nodup := by
  rw [List.map_append, List.map_singleton, ← List.concat_eq_append]
  refine h.concat ?_
  intro hm
  rcases List.mem_map.mp hm with ⟨x, hx, he⟩
  exact hy x hx he

theorem Serves.apart (hs : Serves r call r' reply) (h : r.Apart) : r'.Apart := by
  cases hs with
  | hit _ _ => exact h.use _
  | oversized _ _ => exact h.tick
  | clear => exact ⟨.nil, .nil, nofun⟩
  | @miss r' _ _ absent _ room =>
    have hr := room.remains
    have ha := room.apart h.tick
    -- The new script is used now, and all others were used before.
    have hpast : ∀ x ∈ r'.residents, x.lastUse < r'.clock := by
      intro x hx
      rw [hr.clock]
      exact Nat.lt_succ_of_le (h.past x (hr.residents.subset hx))
    refine ⟨?_, ?_, ?_⟩
    · exact nodup_map_snoc ha.codes fun x hx => absent x (hr.residents.subset hx)
    · exact nodup_map_snoc ha.uses fun x hx => Nat.ne_of_lt (hpast x hx)
    · intro x hx
      rcases List.mem_append.mp hx with hx | hx
      · exact ha.past x hx
      · rw [List.mem_singleton.mp hx]
        exact Nat.le_refl _

theorem Serves.k_eq (hs : Serves r call r' reply) : r'.k = r.k := by
  cases hs with
  | miss _ _ room => exact room.remains.k
  | _ => rfl

/-- A call has one outcome. -/
theorem Serves.eq (h₁ : Serves r call r' reply) (h₂ : Serves r call r'' reply') (h : r.Apart) :
    r' = r'' ∧ reply = reply' := by
  cases h₁ with
  | hit found named =>
    cases h₂ with
    | hit found' named' =>
      rw [h.same found found' (named.trans named'.symm)]
      exact ⟨rfl, rfl⟩
    | oversized absent _ => exact absurd named (absent _ found)
    | miss absent _ _ => exact absurd named (absent _ found)
  | oversized absent large =>
    cases h₂ with
    | hit found named => exact absurd named (absent _ found)
    | oversized _ _ => exact ⟨rfl, rfl⟩
    | miss _ small _ => omega
  | miss absent small room =>
    cases h₂ with
    | hit found named => exact absurd named (absent _ found)
    | oversized _ large => omega
    | miss _ _ room' =>
      rw [room.eq room' h.tick]
      exact ⟨rfl, rfl⟩
  | clear =>
    cases h₂ with
    | clear => exact ⟨rfl, rfl⟩

end LruK

end Scratchpad
