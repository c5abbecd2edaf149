import Scratchpad.Digest

/-!
A cache of compiled scripts with a memory budget. When room is needed, the script goes whose k-th
most recent use lies furthest back; a script used fewer than k times counts as never used.
-/
namespace Scratchpad

/-- A script is found by the digest of its text. -/
abbrev CacheKey := String

def CacheKey.ofCode (code : String) : CacheKey := Digest.sha256 code

/-- The first characters of a key, for display. -/
def CacheKey.short (key : CacheKey) : String := .ofList (key.toList.take 12)

structure CacheEntry (α : Type) where
  key : CacheKey
  artifact : α
  size : Nat
  /-- Times of the latest uses, last one first. -/
  history : List Nat
deriving Repr

namespace CacheEntry

variable {α : Type} (e : CacheEntry α) (k : Nat)

/-- Time of the k-th most recent use, zero if there were fewer. -/
def kthRecent : Nat := (e.history[k - 1]?).getD 0

def lastUse : Nat := e.history.head?.getD 0

/-- Whether `e` is to go before `f`. -/
def before (f : CacheEntry α) : Bool :=
  e.kthRecent k < f.kthRecent k || (e.kthRecent k == f.kthRecent k && e.lastUse < f.lastUse)

end CacheEntry

structure ScriptCache (α : Type) where
  k : Nat
  maxMemory : Nat
  entries : List (CacheEntry α) := []
  currentMemory : Nat := 0
  /-- Counts the look-ups. -/
  clock : Nat := 0
  hits : Nat := 0
  misses : Nat := 0
  evictions : Nat := 0
deriving Repr

/-- What a look-up tells. -/
structure CacheLookup (α : Type) where
  key : CacheKey
  artifact : α
  hit : Bool
deriving Repr

/-- What a cache tells about itself. -/
structure CacheMetrics where
  hits : Nat
  misses : Nat
  evictions : Nat
  entries : Nat
  currentMemory : Nat
  maxMemory : Nat
deriving DecidableEq, Repr

namespace ScriptCache

variable {α : Type}

def defaultMemory : Nat := 16 * 1024 * 1024

def defaultK : Nat := 2

/-- Memory charged for an entry on top of the text. -/
def entryOverhead : Nat := 512

def sizeOf (code : String) : Nat := code.utf8ByteSize + entryOverhead

def empty (maxMemory k : Nat) : ScriptCache α := { k := max k 1, maxMemory }

/-- Of `e` and the entries of a list, the one that is to go first. -/
def leastFrom (k : Nat) (e : CacheEntry α) : List (CacheEntry α) → CacheEntry α
  | [] => e
  | f :: es => leastFrom k (if f.before k e then f else e) es

def least? (k : Nat) : List (CacheEntry α) → Option (CacheEntry α)
  | [] => none
  | e :: es => some (leastFrom k e es)

theorem leastFrom_mem (k : Nat) (e : CacheEntry α) (es : List (CacheEntry α)) :
    leastFrom k e es ∈ e :: es := by
  induction es generalizing e with
  | nil => simp [leastFrom]
  | cons f es ih =>
    have h := ih (if f.before k e then f else e)
    rw [leastFrom]
    split at h
    · simp_all
    · simp_all
      grind

theorem least?_mem {k : Nat} {e : CacheEntry α} {es : List (CacheEntry α)}
    (h : least? k es = some e) : e ∈ es := by
  cases es with
  | nil => simp [least?] at h
  | cons f es =>
    simp only [least?, Option.some.injEq] at h
    exact h ▸ leastFrom_mem k f es

variable (c : ScriptCache α)

/-- The entry that the next eviction removes. -/
def candidate? : Option (CacheEntry α) := least? c.k c.entries

def find? (key : CacheKey) : Option (CacheEntry α) := c.entries.find? (·.key == key)

def contains (code : String) : Bool := (c.find? (.ofCode code)).isSome

def size : Nat := c.entries.length

def erase (e : CacheEntry α) : ScriptCache α :=
  { c with
    entries := c.entries.filter (·.key != e.key)
    currentMemory := c.currentMemory - e.size
    evictions := c.evictions + 1 }

theorem size_erase_lt {e : CacheEntry α} (h : e ∈ c.entries) : (c.erase e).size < c.size := by
  simp only [size, erase]
  exact List.length_filter_lt_length_iff_exists.2 ⟨e, h, by simp⟩

/-- Evicts until `need` more bytes fit the budget or nothing is left. -/
def makeRoom (need : Nat) (c : ScriptCache α) : ScriptCache α :=
  if c.maxMemory < c.currentMemory + need then
    match _h : c.candidate? with
    | some e => makeRoom need (c.erase e)
    | none => c
  else c
termination_by c.size
decreasing_by exact size_erase_lt c (least?_mem _h)

/-- Notes a use of an entry at a time; as many uses are kept as the order looks at, and one more. -/
def touch (key : CacheKey) (now : Nat) : List (CacheEntry α) → List (CacheEntry α)
  | [] => []
  | e :: es =>
    if e.key = key then { e with history := (now :: e.history).take (c.k + 1) } :: es
    else e :: touch key now es

/-- Finds the artifact of a script, or compiles the script and keeps the artifact if it fits. -/
def getOrCreate (code : String) (compile : CacheKey → String → α) :
    ScriptCache α × CacheLookup α :=
  let key := CacheKey.ofCode code
  let now := c.clock + 1
  match c.find? key with
  | some e =>
    ({ c with clock := now, hits := c.hits + 1, entries := c.touch key now c.entries },
      ⟨key, e.artifact, true⟩)
  | none =>
    let c := { c with clock := now, misses := c.misses + 1 }
    let artifact := compile key code
    let size := sizeOf code
    if c.maxMemory < size then (c, ⟨key, artifact, false⟩)
    else
      let c := c.makeRoom size
      ({ c with
          entries := c.entries ++ [⟨key, artifact, size, [now]⟩]
          currentMemory := c.currentMemory + size },
        ⟨key, artifact, false⟩)

/-- Drops all entries; the counts go on. -/
def clear : ScriptCache α := { c with entries := [], currentMemory := 0 }

def metrics : CacheMetrics :=
  { hits := c.hits, misses := c.misses, evictions := c.evictions, entries := c.size
    currentMemory := c.currentMemory, maxMemory := c.maxMemory }

/-- Hits among the look-ups in millionths, rounded to the nearest, a half to the even one. -/
def hitMillionths : Nat :=
  let total := c.hits + c.misses
  if total = 0 then 0
  else
    let q := c.hits * 1000000 / total
    let twice := 2 * (c.hits * 1000000 % total)
    if twice < total || (twice = total && q % 2 = 0) then q else q + 1

end ScriptCache

end Scratchpad
