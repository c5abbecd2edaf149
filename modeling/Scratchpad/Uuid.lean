/-! Identifiers of 128 bits in hexadecimal. -/
namespace Scratchpad

structure Uuid where
  value : Nat
deriving DecidableEq, Repr

namespace Uuid

def hexDigit? (c : Char) : Option Nat :=
  if c.isDigit then some (c.toNat - '0'.toNat)
  else if 'a' ≤ c && c ≤ 'f' then some (c.toNat - 'a'.toNat + 10)
  else if 'A' ≤ c && c ≤ 'F' then some (c.toNat - 'A'.toNat + 10)
  else none

/-- Thirty-two digits of either case. -/
def ofDigits? (cs : List Char) : Option Uuid :=
  if cs.length = 32 then
    (cs.foldlM (fun n c => (hexDigit? c).map (n * 16 + ·)) 0).map Uuid.mk
  else none

/-- Lengths of the groups between hyphens. -/
def groups : List Nat := [8, 4, 4, 4, 12]

/-- The digits of a text in groups with a hyphen between two. -/
def ungroup? : List Nat → List Char → Option (List Char)
  | [], cs => if cs.isEmpty then some [] else none
  | [n], cs => if cs.length = n then some cs else none
  | n :: ns, cs =>
    match cs.drop n with
    | '-' :: r => (ungroup? ns r).map (cs.take n ++ ·)
    | _ => none

def ofGroups? (cs : List Char) : Option Uuid := (ungroup? groups cs).bind ofDigits?

/-- Digits alone, in groups, in groups within braces, or in groups as a URN. -/
def read? (s : String) : Option Uuid :=
  let cs := s.toList
  match s.utf8ByteSize with
  | 32 => ofDigits? cs
  | 36 => ofGroups? cs
  | 38 =>
    if cs.head? = some '\x7b' && cs.getLast? = some '\x7d' then ofGroups? (cs.drop 1).dropLast
    else none
  | 45 => if "urn:uuid:".toList.isPrefixOf cs then ofGroups? (cs.drop 9) else none
  | _ => none

def regroup : List Nat → List Char → List Char
  | [], _ => []
  | [n], cs => cs.take n
  | n :: ns, cs => cs.take n ++ '-' :: regroup ns (cs.drop n)

/-- In groups, in lower case. -/
def render (u : Uuid) : String :=
  let ds := Nat.toDigits 16 u.value
  .ofList (regroup groups (List.replicate (32 - ds.length) '0' ++ ds))

/-- An identifier of random bits, which is marked as such by its thirteenth and seventeenth digits. -/
def ofRandom (bits : Nat) : Uuid :=
  let high := (bits >>> 80) % Nat.pow 2 48 * 16 + 4
  let middle := (bits >>> 64) % 4096
  ⟨high <<< 76 + middle <<< 64 + 2 <<< 62 + bits % Nat.pow 2 62⟩

end Uuid

end Scratchpad
