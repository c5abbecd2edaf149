import Scratchpad.Settings.Basic

/-! The delay before a run: the least one, and a share of what the latest runs took on average. -/
namespace Scratchpad

open Decimal (Binary64)

namespace Duration

/-- A span in seconds. -/
def toBinary64 (d : Duration) : Binary64 :=
  (Binary64.ofRatio d.seconds 1).add ((Binary64.ofRatio d.subNanos 1).div (.ofRatio perSecond 1))

/-- The span of so many seconds, to the nearest nanosecond, if it is one. -/
def ofBinary64? (x : Binary64) : Option Duration :=
  if x.isFinite then
    let (num, den) := x.toRatio
    let nanos := Binary64.roundDiv (num * perSecond) den
    if nanos < secondLimit * perSecond then some ⟨nanos⟩ else none
  else none

/-- So many times as long; an infinite factor gives no span, not even for the zero one. -/
def scale? (d : Duration) (factor : Binary64) : Option Duration :=
  if factor.isFinite then ofBinary64? (factor.mul d.toBinary64) else none

/-- The sum of some spans, if that is still a span. -/
def sum? (ds : List Duration) : Option Duration := ds.foldlM add? zero

/-- The mean of some spans, rounded down. Their number is taken in 32 bits. -/
def mean? : List Duration → Option Duration
  | [] => some zero
  | ds => do
    let sum ← sum? ds
    let count := ds.length % Nat.pow 2 32
    if count = 0 then none else some ⟨sum.nanos / count⟩

end Duration

/-- A weight below zero counts as zero, and so does one that is not a number. -/
def ThrottleSettings.weight (s : ThrottleSettings) : Binary64 :=
  let x := s.durationWeight
  if x.isNegative || Binary64.infinityBits < x.magnitude then .zero else x

/-- The delay after runs of these durations. It stays between the limits; the lower one wins. There is
none where the unlimited delay is not a span, whatever the upper limit. -/
def ThrottleSettings.delay? (s : ThrottleSettings) (durations : List Duration) : Option Duration := do
  let mean ← Duration.mean? durations
  let extra ← mean.scale? s.weight
  let wanted ← s.minDelay.add? extra
  return (wanted.max s.minDelay).min (s.maxDelay.max s.minDelay)

end Scratchpad
