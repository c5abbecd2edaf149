import Scratchpad.Text.Letter

/-! Spans of time to the nanosecond, and the ways in which they are written. -/
namespace Scratchpad

/-- A span of time; seconds fit 64 bits. -/
structure Duration where
  nanos : Nat
deriving DecidableEq, Repr

namespace Duration

def perSecond : Nat := 1000000000

/-- Spans are shorter than this many seconds. -/
def secondLimit : Nat := Nat.pow 2 64

def zero : Duration := ⟨0⟩

def ofSeconds (n : Nat) : Duration := ⟨n * perSecond⟩

def ofMillis (n : Nat) : Duration := ⟨n * 1000000⟩

def greatest : Duration := ⟨secondLimit * perSecond - 1⟩

variable (d : Duration)

def seconds : Nat := d.nanos / perSecond

def subNanos : Nat := d.nanos % perSecond

/-- Whole milliseconds in 64 bits; what does not fit is cut off. -/
def millis : Nat := d.nanos / 1000000 % Nat.pow 2 64

def add (e : Duration) : Duration := ⟨d.nanos + e.nanos⟩

/-- The sum, if that is still a span. -/
def add? (e : Duration) : Option Duration :=
  if d.nanos + e.nanos < secondLimit * perSecond then some (d.add e) else none

/-- A clock shows fewer seconds than this. -/
def clockLimit : Nat := Nat.pow 2 63

/-- What a clock that shows `d` will show after a wait, if it can show that. -/
def later? (e : Duration) : Option Duration :=
  if d.nanos + e.nanos < clockLimit * perSecond then some (d.add e) else none

def min (e : Duration) : Duration := ⟨Nat.min d.nanos e.nanos⟩

def max (e : Duration) : Duration := ⟨Nat.max d.nanos e.nanos⟩

/-- A number that fits 64 bits. -/
def word? (n : Nat) : Option Nat := if n < Nat.pow 2 64 then some n else none

/-- So many times as long, if that is still a span; seconds and nanoseconds are multiplied apart. -/
def times? (n : Nat) : Option Duration := do
  let nanos := d.subNanos * n
  let whole ← word? (d.seconds * n)
  let seconds ← word? (whole + nanos / perSecond)
  return ⟨seconds * perSecond + nanos % perSecond⟩

/-! ### Reading, as in `1h 30m` -/

/-- What a unit counts: so many nanoseconds, or so many seconds. -/
inductive Scale where
  | nanos (n : Nat)
  | seconds (n : Nat)
deriving DecidableEq, Repr

/-- A scale, and what a decimal fraction of it counts: of a minute or less, nanoseconds. A nanosecond
has no fractions. -/
def unit? : String → Option (Scale × Option Scale)
  | "nanos" | "nsec" | "ns" => some (.nanos 1, none)
  | "usec" | "us" | "µs" => some (.nanos 1000, some (.nanos 1000))
  | "millis" | "msec" | "ms" => some (.nanos 1000000, some (.nanos 1000000))
  | "seconds" | "second" | "secs" | "sec" | "s" => some (.seconds 1, some (.nanos 1000000000))
  | "minutes" | "minute" | "min" | "mins" | "m" => some (.seconds 60, some (.nanos 60000000000))
  | "hours" | "hour" | "hr" | "hrs" | "h" => some (.seconds 3600, some (.seconds 3600))
  | "days" | "day" | "d" => some (.seconds 86400, some (.seconds 86400))
  | "weeks" | "week" | "wk" | "wks" | "w" => some (.seconds 604800, some (.seconds 604800))
  | "months" | "month" | "M" => some (.seconds 2630016, some (.seconds 2630016))
  | "years" | "year" | "yr" | "yrs" | "y" => some (.seconds 31557600, some (.seconds 31557600))
  | _ => none

/-- So many times `k` over `den`, if that is a whole number. -/
def quotient? (n k den : Nat) : Option Nat := do
  let product ← word? (n * k)
  if product % den = 0 then some (product / den) else none

/-- Adds `n / den` units. -/
def addUnits (scale : Scale) (n den : Nat) : Option Duration := do
  let (nanos, seconds) ←
    match scale with
    | .nanos k => do pure (← word? (d.subNanos + (← quotient? n k den)), d.seconds)
    | .seconds k => do pure (d.subNanos, d.seconds + (← quotient? n k den))
  let sum := seconds * perSecond + nanos
  if sum < secondLimit * perSecond then some ⟨sum⟩ else none

/-- How far the reading of a span has come. -/
inductive Reading where
  /-- Between two items. -/
  | gap
  | whole (n : Nat)
  | fraction (n numerator denominator : Nat)
  /-- The letters of a unit, last one first. -/
  | unit (n : Nat) (fraction : Option (Nat × Nat)) (letters : List Char)

def isUnitLetter (c : Char) : Bool := c.isAlpha || c = 'µ'

def addItem (n : Nat) (fraction : Option (Nat × Nat)) (letters : List Char) : Option Duration := do
  let (scale, fractionScale) ← unit? (.ofList letters.reverse)
  let whole ← d.addUnits scale n 1
  match fraction with
  | none => some whole
  | some (numerator, denominator) => whole.addUnits (← fractionScale) numerator denominator

/-- One more character; blanks within a number are passed over. -/
def readStep : Duration × Reading → Char → Option (Duration × Reading)
  | (d, .gap), c =>
    if c.isDigit then some (d, .whole (c.toNat - '0'.toNat))
    else if Text.isWhiteSpace c then some (d, .gap)
    else none
  | (d, .whole n), c =>
    if c.isDigit then (word? (n * 10 + (c.toNat - '0'.toNat))).map fun n' => (d, .whole n')
    else if Text.isWhiteSpace c then some (d, .whole n)
    else if isUnitLetter c then some (d, .unit n none [c])
    else if c = '.' then some (d, .fraction n 0 1)
    else none
  | (d, .fraction n numerator denominator), c =>
    if c.isDigit then do
      let numerator' ← word? (numerator * 10 + (c.toNat - '0'.toNat))
      let denominator' ← word? (denominator * 10)
      some (d, .fraction n numerator' denominator')
    else if Text.isWhiteSpace c then some (d, .fraction n numerator denominator)
    else if isUnitLetter c && denominator ≠ 1 then
      some (d, .unit n (some (numerator, denominator)) [c])
    else none
  | (d, .unit n fraction letters), c =>
    if c.isDigit then
      (d.addItem n fraction letters).map fun d' => (d', .whole (c.toNat - '0'.toNat))
    else if Text.isWhiteSpace c then (d.addItem n fraction letters).map fun d' => (d', .gap)
    else if isUnitLetter c then some (d, .unit n fraction (c :: letters))
    else none

/-- Numbers with units; a zero may stand alone. -/
def read? (s : String) : Option Duration :=
  if s = "0" then some zero
  else if s.toList.all Text.isWhiteSpace then none
  else do
    match ← s.toList.foldlM readStep (zero, .gap) with
    | (d, .gap) => some d
    | (d, .unit n fraction letters) => d.addItem n fraction letters
    | _ => none

/-! ### Writing -/

/-- The parts of a span that are not zero, largest first. -/
def parts : List String :=
  let s := d.seconds
  let n := d.subNanos
  let named (k : Nat) (unit : String) : List String :=
    if k = 0 then [] else if k = 1 then [s!"{k}{unit}"] else [s!"{k}{unit}s"]
  let short (k : Nat) (unit : String) : List String := if k = 0 then [] else [s!"{k}{unit}"]
  named (s / 31557600) "year" ++ named (s % 31557600 / 2630016) "month"
    ++ named (s % 31557600 % 2630016 / 86400) "day"
    ++ short (s % 31557600 % 2630016 % 86400 / 3600) "h"
    ++ short (s % 31557600 % 2630016 % 86400 % 3600 / 60) "m"
    ++ short (s % 31557600 % 2630016 % 86400 % 60) "s"
    ++ short (n / 1000000) "ms" ++ short (n / 1000 % 1000) "us" ++ short (n % 1000) "ns"

/-- Numbers with units, as `read?` takes them. -/
def render : String := if d.nanos = 0 then "0s" else " ".intercalate d.parts

/-- Digits of `n` behind a point, as many as `width` counts, without zeros at the end. -/
def decimals (n width : Nat) : String :=
  let ds := Nat.toDigits 10 n
  let padded := List.replicate (width - ds.length) '0' ++ ds
  let kept := (padded.reverse.dropWhile (· = '0')).reverse
  if kept.isEmpty then "" else .ofList ('.' :: kept)

/-- One number with the largest unit of which there is at least one. -/
def renderShort : String :=
  if perSecond ≤ d.nanos then s!"{d.seconds}{decimals d.subNanos 9}s"
  else if 1000000 ≤ d.nanos then s!"{d.nanos / 1000000}{decimals (d.nanos % 1000000) 6}ms"
  else if 1000 ≤ d.nanos then s!"{d.nanos / 1000}{decimals (d.nanos % 1000) 3}µs"
  else s!"{d.nanos}ns"

end Duration

end Scratchpad
