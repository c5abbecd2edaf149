/-! Where a character stands in a text. -/
namespace Scratchpad.Text

/-- Line and column, both counted from one; a column counts characters. -/
structure Position where
  line : Nat
  column : Nat
deriving DecidableEq, Repr

namespace Position

def first : Position := ⟨1, 1⟩

/-- Only a line feed ends a line. -/
def advance (p : Position) (c : Char) : Position :=
  if c = '\n' then ⟨p.line + 1, 1⟩ else ⟨p.line, p.column + 1⟩

/-- The position behind `cs`, when `cs` starts at `p`. -/
def after (p : Position) (cs : List Char) : Position := cs.foldl advance p

@[simp] theorem after_nil (p : Position) : p.after [] = p := rfl

theorem after_append (p : Position) (cs ds : List Char) :
    p.after (cs ++ ds) = (p.after cs).after ds := List.foldl_append

theorem line_after (p : Position) (cs : List Char) :
    (p.after cs).line = p.line + cs.count '\n' := by
  induction cs generalizing p with
  | nil => simp
  | cons c cs ih =>
    have h : p.after (c :: cs) = (p.advance c).after cs := rfl
    rw [h, ih]
    by_cases hc : c = '\n'
    · simp [advance, hc]
      omega
    · simp [advance, hc]

end Position

/-- Bytes that `cs` takes in UTF-8. -/
def byteSize : List Char → Nat
  | [] => 0
  | c :: cs => c.utf8Size + byteSize cs

/-- The byte offset of the character at `offset`. -/
def byteOffset (source : List Char) (offset : Nat) : Nat := byteSize (source.take offset)

/-- The characters from `start` up to `stop`. -/
def slice (source : List Char) (start stop : Nat) : List Char :=
  (source.drop start).take (stop - start)

end Scratchpad.Text
