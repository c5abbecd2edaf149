import Mathlib.Tactic.Ring
import Scratchpad.Backoff

/-!
The delay before an attempt is the base delay doubled with each attempt, as long as there are no more
than 31 doublings to make or the greatest delay is reached before that.
-/
namespace Scratchpad

namespace Duration

variable {d : Duration} {n : Nat}

/-- A span whose seconds fit 64 bits. -/
def Fits (d : Duration) : Prop := d.nanos < secondLimit * perSecond

instance : Decidable d.Fits := inferInstanceAs (Decidable (_ < _))

theorem word?_eq (n : Nat) : word? n = if n < secondLimit then some n else none := rfl

/-- Multiplied apart, seconds and nanoseconds make up the product. -/
theorem nanos_mul (d : Duration) (n : Nat) : d.nanos * n
    = (d.seconds * n + d.subNanos * n / perSecond) * perSecond + d.subNanos * n % perSecond := by
  have hnanos : d.nanos = d.seconds * perSecond + d.subNanos := (Nat.div_add_mod' _ _).symm
  have hrest := Nat.div_add_mod' (d.subNanos * n) perSecond
  calc d.nanos * n
      = d.seconds * n * perSecond + d.subNanos * n := by rw [hnanos]; ring
    _ = d.seconds * n * perSecond
          + (d.subNanos * n / perSecond * perSecond + d.subNanos * n % perSecond) := by rw [hrest]
    _ = _ := by ring

theorem times?_eq (d : Duration) (n : Nat) :
    d.times? n = if d.nanos * n < secondLimit * perSecond then some ⟨d.nanos * n⟩ else none := by
  have hmod : d.subNanos * n % perSecond < perSecond := Nat.mod_lt _ (by decide)
  have hlimit : d.nanos * n < secondLimit * perSecond
      ↔ d.seconds * n + d.subNanos * n / perSecond < secondLimit := by
    rw [nanos_mul]
    constructor
    · intro hlt
      refine Nat.lt_of_mul_lt_mul_right (a := perSecond) (Nat.lt_of_le_of_lt ?_ hlt)
      exact Nat.le_add_right _ _
    · intro hlt
      have hnext := Nat.mul_le_mul_right perSecond (Nat.succ_le_of_lt hlt)
      rw [Nat.succ_mul] at hnext
      omega
  unfold times?
  by_cases hall : d.seconds * n + d.subNanos * n / perSecond < secondLimit
  · have hwhole : d.seconds * n < secondLimit := Nat.lt_of_le_of_lt (Nat.le_add_right _ _) hall
    rw [if_pos (hlimit.mpr hall)]
    simp [word?_eq, hwhole, hall, nanos_mul d n]
  · rw [if_neg fun hlt => hall (hlimit.mp hlt)]
    by_cases hwhole : d.seconds * n < secondLimit <;> simp [word?_eq, hwhole, hall]

end Duration

namespace RestartPolicy

variable {p : RestartPolicy} {n : Nat}

/-- The delay is never rounded, and a product that is no span any more counts as longer than the
greatest delay. -/
theorem nanos_delayFor (hp : p.maxDelay.Fits) (n : Nat) : (p.delayFor n).nanos
    = min (p.baseDelay.nanos * 2 ^ min (n - 1) maxDoublings) p.maxDelay.nanos := by
  unfold Duration.Fits at hp
  simp only [delayFor, Duration.times?_eq, Duration.min]
  split
  · rfl
  · next hlong =>
    have hle : p.maxDelay.nanos ≤ p.baseDelay.nanos * 2 ^ min (n - 1) maxDoublings := by
      refine Nat.le_trans (Nat.le_of_lt hp) (Nat.le_of_not_lt hlong)
    rw [Nat.min_eq_right hle]
    exact Nat.min_self _

/-- More doublings make a longer delay. -/
theorem doubled_lt (hbase : 0 < p.baseDelay.nanos) (hn : maxDoublings < n - 1) :
    p.baseDelay.nanos * 2 ^ maxDoublings < p.baseDelay.nanos * 2 ^ (n - 1) :=
  Nat.mul_lt_mul_of_pos_left (Nat.pow_lt_pow_right (by decide) hn) hbase

/-- The delay before attempt `n` doubles at most 31 times. It is the base delay doubled with each
attempt, or the greatest delay if that is less, just if there are no more doublings than that to
make, there is nothing to double, or the greatest delay is reached by then. -/
theorem delayFor_eq_iff (p : RestartPolicy) (hp : p.maxDelay.Fits) (n : Nat) :
    (p.delayFor n).nanos = min (p.baseDelay.nanos * 2 ^ min (n - 1) 31) p.maxDelay.nanos ∧
    ((p.delayFor n).nanos = min (p.baseDelay.nanos * 2 ^ (n - 1)) p.maxDelay.nanos ↔
      n ≤ 32 ∨ p.baseDelay = .zero ∨ p.maxDelay.nanos ≤ p.baseDelay.nanos * 2 ^ 31) := by
  have hdelay := nanos_delayFor hp n
  refine ⟨hdelay, ?_⟩
  rw [hdelay]
  by_cases hn : n ≤ 32
  · rw [Nat.min_eq_left (show n - 1 ≤ maxDoublings by simp only [maxDoublings]; omega)]
    exact iff_of_true rfl (.inl hn)
  · have hmore : maxDoublings < n - 1 := by simp only [maxDoublings]; omega
    rw [Nat.min_eq_right (Nat.le_of_lt hmore)]
    rcases Nat.eq_zero_or_pos p.baseDelay.nanos with hzero | hpos
    · have hbase : p.baseDelay = .zero := congrArg Duration.mk hzero
      rw [hzero, Nat.zero_mul, Nat.zero_mul]
      exact iff_of_true rfl (.inr (.inl hbase))
    · have hlt := doubled_lt hpos hmore
      have hbase : p.baseDelay ≠ .zero := by
        intro heq
        rw [heq] at hpos
        exact absurd hpos (Nat.lt_irrefl 0)
      constructor
      · intro heq
        refine .inr (.inr ?_)
        simp only [maxDoublings] at heq hlt
        omega
      · rintro (hle | heq | hle)
        · exact absurd hle hn
        · exact absurd heq hbase
        · simp only [maxDoublings] at hlt ⊢
          omega

/-- A nanosecond is doubled 31 times and then no more, though an hour has not been reached. -/
theorem delayFor_eq_of_nanosecond :
    let p : RestartPolicy := { baseDelay := ⟨1⟩, maxDelay := .ofSeconds 3600 }
    p.maxDelay.Fits ∧ (p.delayFor 60).nanos = 2147483648 ∧
      (p.delayFor 60).nanos ≠ min (p.baseDelay.nanos * 2 ^ 59) p.maxDelay.nanos := by
  intro p
  have hp : p.maxDelay.Fits := by decide +kernel
  obtain ⟨hdelay, hiff⟩ := delayFor_eq_iff p hp 60
  refine ⟨hp, hdelay.trans (by decide +kernel), fun heq => ?_⟩
  exact absurd (hiff.mp heq) (by decide +kernel)

end RestartPolicy

end Scratchpad
