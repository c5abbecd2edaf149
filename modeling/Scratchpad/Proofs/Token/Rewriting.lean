import Scratchpad.Instrument.Options
import Scratchpad.Proofs.Token.Place

/-!
Edits that write no line breaks. Lines then move just where an edit takes line breaks out, which it
does when the tokens of a head that it replaces stand on several lines.
-/
namespace Scratchpad

open Instrument (Options debugClose)
open Text (Edit slice)

/-- A text without line breaks. -/
def Unbroken (s : String) : Prop := '\n' ∉ s.toList

instance (s : String) : Decidable (Unbroken s) := inferInstanceAs (Decidable ('\n' ∉ s.toList))

theorem unbroken_append {s t : String} : Unbroken (s ++ t) ↔ Unbroken s ∧ Unbroken t := by
  simp [Unbroken, not_or]

theorem unbroken_nat (n : Nat) : Unbroken (toString n) := by
  intro h
  have hmem : '\n' ∈ Nat.toDigits 10 n := by simpa using h
  have hdigit := Nat.isDigit_of_mem_toDigits (by decide) (by decide) hmem
  exact absurd hdigit (by decide)

namespace Outline

variable {o : Outline} {edits : List Edit} {e : Edit} {heads : List (Nat × Nat)} {i j : Nat}

/-- `e` takes the tokens from `i` on out, and line breaks just as far as `j`. -/
structure Replaces (o : Outline) (e : Edit) (i j : Nat) : Prop where
  start : e.start = o.start i
  broken : '\n' ∈ slice o.source e.start e.stop ↔ o.line i ≠ o.line j

/-- Edits that write no line breaks, and take none out but those within `heads`. -/
structure Rewrites (o : Outline) (edits : List Edit) (heads : List (Nat × Nat)) : Prop where
  unbroken : ∀ e ∈ edits, Unbroken e.text
  broken : ∀ e ∈ edits, '\n' ∈ slice o.source e.start e.stop →
    ∃ h ∈ heads, o.Replaces e h.1 h.2
  head : ∀ h ∈ heads, ∃ e ∈ Edit.kept edits o.source, o.Replaces e h.1 h.2

theorem Rewrites.count_iff (h : o.Rewrites edits heads) :
    (Edit.apply edits o.source).count '\n' = o.source.count '\n'
      ↔ ∀ h ∈ heads, o.line h.1 = o.line h.2 := by
  rw [Edit.count_apply_eq_iff h.unbroken]
  constructor
  · intro hnone head hhead
    obtain ⟨e, he, hr⟩ := h.head head hhead
    exact Decidable.byContradiction fun hne => hnone e he (hr.broken.mpr hne)
  · intro hlines e he hbreak
    obtain ⟨head, hhead, hr⟩ := h.broken e (Edit.mem_of_mem_kept he) hbreak
    exact hr.broken.mp hbreak (hlines head hhead)

theorem Rewrites.count_take_iff (h : o.Rewrites edits heads)
    (hj : (Edit.origins edits o.source)[j]? = some (some i)) :
    ((Edit.apply edits o.source).take j).count '\n' = (o.source.take i).count '\n'
      ↔ ∀ h ∈ heads, o.start h.1 ≤ i → o.line h.1 = o.line h.2 := by
  have hbeside := (Edit.mem_originsFrom Edit.spaced_kept (List.mem_of_getElem? hj)).2.2
  rw [Edit.count_take_apply_eq_iff h.unbroken hj]
  constructor
  · intro hnone head hhead hle
    obtain ⟨e, he, hr⟩ := h.head head hhead
    have hstop : e.stop ≤ i := (hbeside e he).resolve_left (by rw [hr.start]; omega)
    exact Decidable.byContradiction fun hne => hnone e he hstop (hr.broken.mpr hne)
  · intro hlines e he hstop hbreak
    obtain ⟨head, hhead, hr⟩ := h.broken e (Edit.mem_of_mem_kept he) hbreak
    have hle := (Edit.spaced_kept.of_mem he).2.1
    exact hr.broken.mp hbreak (hlines head hhead (by rw [← hr.start]; omega))

/-- A replacement of the tokens from `i` through `j`, when `j` has no line break in it. -/
theorem Placed.replaces (h : o.Placed) (hij : i ≤ j) (hu : Unbroken (o.text j))
    (hj : o.text j ≠ "") (hs : e.start = o.start i) (ht : e.stop = o.stop j) :
    o.Replaces e i j := by
  have hlt := lt_size hj
  have hsplit : slice o.source e.start e.stop
      = slice o.source (o.start i) (o.start j) ++ (o.text j).toList := by
    rw [hs, ht, ← h.slice_eq hlt, ← List.append_right_inj (o.source.take (o.start i)),
      ← List.append_assoc, Text.take_append_slice (h.start_le_start hij hlt),
      Text.take_append_slice (Nat.le_of_lt (h.start_lt_stop hlt)), Text.take_append_slice]
    exact Nat.le_trans (h.start_le_start hij hlt) (Nat.le_of_lt (h.start_lt_stop hlt))
  refine ⟨hs, ?_⟩
  rw [hsplit, List.mem_append, h.mem_slice_iff hij hlt]
  exact ⟨fun hb => hb.resolve_right hu, .inl⟩

/-- A replacement of what stands from token `i` up to token `j`. -/
theorem Placed.replaces_upTo (h : o.Placed) (hij : i ≤ j) (hj : j < o.size)
    (hs : e.start = o.start i) (ht : e.stop = o.start j) : o.Replaces e i j :=
  ⟨hs, by rw [hs, ht, h.mem_slice_iff hij hj]⟩

end Outline

namespace Instrument.Options

variable {options : Options}

theorem unbroken_debugOpen (h : Unbroken options.debugFunction) (line : Nat) :
    Unbroken (options.debugOpen line) := by
  refine unbroken_append.mpr ⟨unbroken_append.mpr ⟨unbroken_append.mpr ⟨h, ?_⟩, ?_⟩, ?_⟩
  · decide
  · exact unbroken_nat line
  · decide

theorem unbroken_debugHead (h : Unbroken options.debugFunction) (line : Nat) (b : Bool) :
    Unbroken (options.debugHead line b) := by
  have hhead : Unbroken (toString options.debugFunction ++ toString "(" ++ toString line) :=
    unbroken_append.mpr ⟨unbroken_append.mpr ⟨h, by decide⟩, unbroken_nat line⟩
  cases b with
  | false => exact hhead
  | true => exact unbroken_append.mpr ⟨hhead, by decide⟩

end Instrument.Options

end Scratchpad
