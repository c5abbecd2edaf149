import Mathlib.Data.PFun

/-!
Loops that go round until a turn of theirs has a result. A turn can fail, and there need not be one
with a result: such a loop has none.
-/
namespace Scratchpad

variable {σ β : Type}

/-- What a turn of a loop leads to. -/
inductive Turn (σ β : Type) where
  | again (state : σ)
  | done (result : β)

/-- What the turn at `s` leads to, a result on the left. -/
def turnAt (turn : σ → Option (Turn σ β)) (s : σ) : Part (β ⊕ σ) :=
  match turn s with
  | some (.again s') => .some (.inr s')
  | some (.done b) => .some (.inl b)
  | none => .none

open Classical in
/-- Turns of a loop from `s` on until one has a result. -/
noncomputable def loop (turn : σ → Option (Turn σ β)) (s : σ) : Option β :=
  (PFun.fix (turnAt turn) s).toOption

variable {turn : σ → Option (Turn σ β)} {s s' : σ} {b : β}

theorem loop_again (h : turn s = some (.again s')) : loop turn s = loop turn s' := by
  have hnext : Sum.inr s' ∈ turnAt turn s := by simp [turnAt, h]
  have hfix : PFun.fix (turnAt turn) s = PFun.fix (turnAt turn) s' := PFun.fix_fwd_eq hnext
  rw [loop, loop, hfix]

theorem loop_done (h : turn s = some (.done b)) : loop turn s = some b := by
  have hlast : Sum.inl b ∈ turnAt turn s := by simp [turnAt, h]
  rw [loop, Part.eq_some_iff.mpr (PFun.fix_stop hlast), Part.some_toOption]

/-- A loop that stays where it is has no result. -/
example : (loop (fun _ : Unit => some (.again ())) () : Option Nat) = none := by
  refine Option.eq_none_iff_forall_not_mem.mpr fun b hb => ?_
  have hfix : b ∈ PFun.fix (turnAt fun _ : Unit => some (.again ())) () := by simpa [loop] using hb
  exact PFun.fixInduction hfix fun _ _ ih => ih () (by simp [turnAt])

end Scratchpad
