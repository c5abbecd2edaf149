import Scratchpad.Json.Basic

/-!
Reading of JSON numbers. Whole numbers keep their value as long as they fit 64 bits. All others
become doubles: the digits are gathered in a 64-bit word, those behind it only move the point, and
the word is then multiplied or divided by a power of ten.
-/
namespace Scratchpad.Json

open Decimal (Binary64)

/-- Written number: sign, digits before and behind the point, exponent. -/
structure Numeral where
  negative : Bool
  whole : List Char
  fraction : List Char
  hasExponent : Bool
  exponentNegative : Bool
  exponent : List Char
deriving Repr

def digitValue (c : Char) : Nat := c.toNat - '0'.toNat

def wordLimit : Nat := Nat.pow 2 64

/-- Takes digits into the word as long as it holds them: the word and the digits left over. -/
def gather (word : Nat) : List Char → Nat × List Char
  | [] => (word, [])
  | c :: cs =>
    if word * 10 + digitValue c < wordLimit then gather (word * 10 + digitValue c) cs
    else (word, c :: cs)

/-- Exponents from here on count as infinite. -/
def exponentLimit : Nat := Nat.pow 2 31

/-- Powers of ten are applied in steps of 308, the largest one that a double holds. -/
def scale (f : Binary64) (exponent : Int) : Nat → Option Binary64
  | 0 => some f
  | fuel + 1 =>
    if exponent.natAbs ≤ 308 then
      let power := Binary64.ofDecimal 1 exponent.natAbs
      if 0 ≤ exponent then
        let product := f.mul power
        if product.isFinite then some product else none
      else some (f.div power)
    else if f = Binary64.zero then some f
    else if 0 ≤ exponent then none
    else scale (f.div (Binary64.ofDecimal 1 308)) (exponent + 308) fuel

def withSign (negative : Bool) (f : Binary64) : Json := .float (if negative then f.neg else f)

/-- The value of a numeral; none if it is too large for a double. -/
def Numeral.value (n : Numeral) : Option Json :=
  let (word, left) := gather 0 n.whole
  if n.fraction.isEmpty && !n.hasExponent && left.isEmpty then
    if !n.negative then some (.int word)
    else if word = 0 || Nat.pow 2 63 < word then some (withSign true (Binary64.ofRatio word 1))
    else some (.int (-word))
  else
    let (word', skipped) := gather word n.fraction
    let point : Int := left.length - (n.fraction.length - skipped.length : Nat)
    let exponent := n.exponent.foldl (fun e c => e * 10 + digitValue c) 0
    if exponentLimit ≤ exponent then
      if word' ≠ 0 && !n.exponentNegative then none else some (withSign n.negative .zero)
    else
      let power := if n.exponentNegative then point - exponent else point + exponent
      (scale (Binary64.ofRatio word' 1) power 16).map (withSign n.negative)

end Scratchpad.Json
