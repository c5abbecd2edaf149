/-! Patterns with stars, question marks and brackets. -/
namespace Scratchpad.Shell

inductive Pattern where
  | any
  | one
  | set (negated : Bool) (ranges : List (Char × Char))
  | char (c : Char)
deriving DecidableEq, Repr

namespace Pattern

def matchesChar (c : Char) : Pattern → Bool
  | .any | .one => true
  | .set negated ranges => (ranges.any fun (a, b) => a ≤ c && c ≤ b) != negated
  | .char d => c = d

def matches_ : List Pattern → List Char → Bool
  | [], s => s.isEmpty
  | .any :: p, [] => matches_ p []
  | .any :: p, c :: s => matches_ p (c :: s) || matches_ (.any :: p) s
  | _ :: _, [] => false
  | t :: p, c :: s => t.matchesChar c && matches_ p s
termination_by p s => p.length + s.length

/-- The ranges in brackets, and the characters behind the closing one. -/
def ranges (done : List (Char × Char)) :
    List (Char × Bool) → Option (List (Char × Char) × List (Char × Bool))
  | [] => none
  | (']', false) :: r => if done.isEmpty then ranges [(']', ']')] r else some (done, r)
  | (a, _) :: ('-', false) :: (b, q) :: r =>
    if b = ']' && !q then some (done ++ [(a, a), ('-', '-')], r)
    else ranges (done ++ [(a, b)]) r
  | (a, _) :: r => ranges (done ++ [(a, a)]) r

/-- A pattern from characters, of which the quoted ones stand for themselves. -/
def read : Nat → List (Char × Bool) → List Pattern
  | 0, _ => []
  | _, [] => []
  | fuel + 1, ('*', false) :: r => .any :: read fuel r
  | fuel + 1, ('?', false) :: r => .one :: read fuel r
  | fuel + 1, ('[', false) :: r =>
    let (negated, inner) := match r with
      | ('!', false) :: r => (true, r)
      | r => (false, r)
    match ranges [] inner with
    | some (among, r) => .set negated among :: read fuel r
    | none => .char '[' :: read fuel r
  | fuel + 1, (c, _) :: r => .char c :: read fuel r

def ofChars (cs : List (Char × Bool)) : List Pattern := read (cs.length + 1) cs

/-- Cuts off what matches at one end, the shortest or the longest. -/
def cut (p : List Pattern) (suffix longest : Bool) (s : List Char) : List Char :=
  let lengths := List.range (s.length + 1)
  let lengths := if longest then lengths.reverse else lengths
  let fits (n : Nat) : Bool :=
    if suffix then matches_ p (s.drop (s.length - n)) else matches_ p (s.take n)
  match lengths.find? fits with
  | none => s
  | some n => if suffix then s.take (s.length - n) else s.drop n

end Pattern

end Scratchpad.Shell
