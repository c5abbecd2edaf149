/-! Binary floating point of 64 bits in exact arithmetic, and the shortest decimals for it. -/
namespace Scratchpad.Decimal

/-- A double by its bit pattern: sign, eleven bits of exponent, fifty-two of fraction. -/
structure Binary64 where
  bits : Nat
deriving DecidableEq, Repr

namespace Binary64

def signBit : Nat := Nat.pow 2 63

/-- Pattern of positive infinity; the patterns below it are the finite numbers in order. -/
def infinityBits : Nat := 0x7ff * Nat.pow 2 52

def zero : Binary64 := ⟨0⟩

def isNegative (x : Binary64) : Bool := signBit ≤ x.bits

def magnitude (x : Binary64) : Nat := x.bits % signBit

def isFinite (x : Binary64) : Bool := x.magnitude < infinityBits

def neg (x : Binary64) : Binary64 := ⟨if x.isNegative then x.bits - signBit else x.bits + signBit⟩

/-- Rounds a quotient to the nearest integer, a half to the even one. -/
def roundDiv (num den : Nat) : Nat :=
  let q := num / den
  let twice := 2 * (num % den)
  if twice < den || (twice = den && q % 2 = 0) then q else q + 1

/-- Whether `num / den` is at least two to the power `e`. -/
def atLeastTwoPow (num den : Nat) (e : Int) : Bool :=
  den * Nat.pow 2 e.toNat ≤ num * Nat.pow 2 (-e).toNat

/-- The double nearest to a positive quotient, infinity if none is large enough. -/
def ofRatio (num den : Nat) : Binary64 :=
  if num = 0 || den = 0 then zero
  else
    let guess : Int := (num.log2 : Int) - den.log2
    let log := if atLeastTwoPow num den guess then guess else guess - 1
    let e := max (log - 52) (-1074)
    let q := roundDiv (num * Nat.pow 2 (-e).toNat) (den * Nat.pow 2 e.toNat)
    ⟨min infinityBits ((e + 1074).toNat * Nat.pow 2 52 + q)⟩

/-- The magnitude of a finite double as a quotient. -/
def toRatio (x : Binary64) : Nat × Nat :=
  let field := x.magnitude / Nat.pow 2 52
  let fraction := x.magnitude % Nat.pow 2 52
  if field = 0 then (fraction, Nat.pow 2 1074)
  else ((Nat.pow 2 52 + fraction) * Nat.pow 2 (field - 1075), Nat.pow 2 (1075 - field))

/-- The double nearest to `m * 10 ^ e`. -/
def ofDecimal (m : Nat) (e : Int) : Binary64 :=
  if m = 0 || e + m.log2 < -400 then zero
  else if 400 < e then ⟨infinityBits⟩
  else ofRatio (m * Nat.pow 10 e.toNat) (Nat.pow 10 (-e).toNat)

/-- The product of two magnitudes. -/
def mul (x y : Binary64) : Binary64 :=
  let (a, b) := x.toRatio
  let (c, d) := y.toRatio
  ofRatio (a * c) (b * d)

/-- The sum of two magnitudes. -/
def add (x y : Binary64) : Binary64 :=
  let (a, b) := x.toRatio
  let (c, d) := y.toRatio
  ofRatio (a * d + c * b) (b * d)

/-- The quotient of two magnitudes. -/
def div (x y : Binary64) : Binary64 :=
  let (a, b) := x.toRatio
  let (c, d) := y.toRatio
  ofRatio (a * d) (b * c)

/-- Decimal places by which the first digit of `num / den` stands behind the point, or zero. -/
def leadingPlaces (num den : Nat) : Nat :=
  ((List.range 400).find? fun t => den ≤ num * Nat.pow 10 t).getD 0

/-- The power of ten of the first digit of a positive quotient. -/
def firstPower (num den : Nat) : Int :=
  if den ≤ num then ((Nat.toDigits 10 (num / den)).length : Int) - 1
  else -(leadingPlaces num den : Int)

/-- The two neighbours of `x` among the decimals with last digit at `10 ^ e` that read back as `x`,
the nearer one first. -/
def readingBack (x : Binary64) (e : Int) : List Nat :=
  let (num, den) := x.toRatio
  let num' := num * Nat.pow 10 (-e).toNat
  let den' := den * Nat.pow 10 e.toNat
  let low := num' / den'
  let near := roundDiv num' den'
  [near, if near = low then low + 1 else low].filter fun m =>
    (ofDecimal m e).bits == x.magnitude

/-- Digits and exponent of the shortest decimal that reads back as `x`; of several, the nearest. -/
def shortest (x : Binary64) : Nat × Int :=
  let (num, den) := x.toRatio
  if num = 0 then (0, 0)
  else
    let first := firstPower num den
    let exact := (List.range 17).findSome? fun (n : Nat) =>
      (readingBack x (first - (n : Int))).head?.map fun m => (m, first - (n : Int))
    exact.getD (0, 0)

/-- Removes zeros from the end of the digits. -/
def stripZeros : Nat → Nat × Int → Nat × Int
  | 0, p => p
  | fuel + 1, (m, e) => if m ≠ 0 && m % 10 = 0 then stripZeros fuel (m / 10, e + 1) else (m, e)

/-- Digits of the shortest decimal and the place of the point, counted from the first digit. -/
def digits (x : Binary64) : List Char × Int :=
  let (m, e) := stripZeros 20 x.shortest
  let ds := Nat.toDigits 10 m
  (ds, ds.length + e)

def zeros (n : Nat) : List Char := List.replicate n '0'

/-- Digits with the point at `point` and no exponent; a whole number ends in a point and a zero. -/
def positional (ds : List Char) (point : Int) : List Char :=
  if ds.length ≤ point then ds ++ zeros (point - ds.length).toNat ++ ['.', '0']
  else if 0 < point then ds.take point.toNat ++ '.' :: ds.drop point.toNat
  else '0' :: '.' :: zeros (-point).toNat ++ ds

/-- One digit, the point, the other digits and the exponent. -/
def scientific (ds : List Char) (point : Int) : List Char :=
  let tail := if ds.length ≤ 1 then [] else '.' :: ds.drop 1
  ds.take 1 ++ tail ++ 'e' :: (toString (point - 1)).toList

def signed (x : Binary64) (cs : List Char) : String :=
  .ofList (if x.isNegative then '-' :: cs else cs)

/-- Positional for numbers from 1e-5 up to 1e16. -/
def toJsonText (x : Binary64) : String :=
  let (ds, point) := x.digits
  signed x <|
    if x.magnitude = 0 then "0.0".toList
    else if -5 < point && point ≤ 16 then positional ds point
    else scientific ds point

/-- Positional for all numbers. -/
def toPlainText (x : Binary64) : String :=
  if x.magnitude = infinityBits then signed x "inf".toList
  else if infinityBits < x.magnitude then signed x "nan".toList
  else if x.magnitude = 0 then signed x "0.0".toList
  else
    let (ds, point) := x.digits
    signed x (positional ds point)

end Binary64

end Scratchpad.Decimal
