import Isolate.Number.Decimal

/-!
# Durations and instants

* `Duration`: a span of time in nanoseconds whose whole seconds fit 64 bits;
* `Duration.ofSeconds`: the span of a number of seconds, rounded to the nearest nanosecond;
* `Instant`: a moment of the clock, in milliseconds since it was started;
* `Instant.after`, `Instant.after?`: the moment at which a sleeper is woken;
* `Instant.since`: the time between two moments.
-/

namespace Isolate

/-- Nanoseconds in a second. -/
def nanosPerSecond : Nat := 1000000000

/-- Nanoseconds in a millisecond. -/
def nanosPerMilli : Nat := 1000000

/-- A span of time; its whole seconds fit 64 bits. -/
structure Duration where
  nanos : Nat
  fits : nanos < 18446744073709551616 * 1000000000
  deriving DecidableEq

namespace Duration

instance : Inhabited Duration := ⟨0, by decide⟩

/-- No time at all. -/
def zero : Duration := ⟨0, by decide⟩

/-- The greatest span. -/
def max : Duration := ⟨18446744073709551616 * 1000000000 - 1, by decide⟩

/-- The span of so many nanoseconds, if it is not too long. -/
def ofNanos? (n : Nat) : Option Duration :=
  if h : n < 18446744073709551616 * 1000000000 then some ⟨n, h⟩ else none

/-- The span of so many milliseconds. -/
def ofMillis (ms : UInt64) : Duration :=
  ⟨ms.toNat * 1000000, by have := ms.toNat_lt; omega⟩

/-- The span of so many seconds, fewer than four thousand million. -/
def ofWholeSeconds (secs : UInt32) : Duration :=
  ⟨secs.toNat * 1000000000, by have := secs.toNat_lt; omega⟩

/-- Seconds and nanoseconds, where a thousand million nanoseconds or more carry into the seconds. -/
def ofParts? (secs nanos : Nat) : Option Duration := ofNanos? (secs * nanosPerSecond + nanos)

/-- The whole seconds. -/
def seconds (d : Duration) : Nat := d.nanos / nanosPerSecond

/-- The nanoseconds beyond the whole seconds. -/
def subsecond (d : Duration) : Nat := d.nanos % nanosPerSecond

/-- The span is zero. -/
def isZero (d : Duration) : Bool := d.nanos == 0

/-- Why a number of seconds is no duration. -/
inductive Unrepresentable where
  | negative
  | tooLarge
  deriving DecidableEq, Repr

/-- The wording of a refused number of seconds. -/
def Unrepresentable.message : Unrepresentable → String
  | .negative => "cannot convert float seconds to Duration: value is negative"
  | .tooLarge => "cannot convert float seconds to Duration: value is either too big or NaN"

/-- A number of seconds, rounded to the nearest nanosecond with ties to even. Negative zero is
zero; what is no number is refused like what is too large. -/
def ofSeconds (x : Binary64) : Except Unrepresentable Duration :=
  match x.reading with
  | .finite negative m e =>
    if m = 0 then .ok zero
    else if negative then .error .negative
    -- from 2 ^ 64 seconds on the answer is known, and no huge power of two is formed
    else if 64 ≤ e then .error .tooLarge
    else
      let n := divNearestEven (Binary64.numerator m e * nanosPerSecond) (Binary64.denominator e)
      match ofNanos? n with
      | some d => .ok d
      | none => .error .tooLarge
  | .infinite true => .error .negative
  | _ => .error .tooLarge

/-- A positive number of seconds as a duration; anything else is no limit. -/
def ofPositiveSeconds? (x : Binary64) : Option Duration :=
  if x.isPositive then (ofSeconds x).toOption else none

end Duration

/-- A moment, in milliseconds since the clock was started. A sleeper is woken at such a moment, even
if the span that it waits ends between two of them. -/
abbrev Instant := Nat

namespace Instant

/-- The first nanosecond that the clock cannot show. -/
def horizon : Nat := bound63 * nanosPerSecond

/-- The first moment that is at least a span later. -/
def after (t : Instant) (d : Duration) : Instant :=
  t + (d.nanos + (nanosPerMilli - 1)) / nanosPerMilli

/-- The first moment that is at least a span later, if the clock can show the end of the span. -/
def after? (t : Instant) (d : Duration) : Option Instant :=
  if t * nanosPerMilli + d.nanos < horizon then some (t.after d) else none

/-- The time between two moments, zero if the second is the earlier one. -/
def since (start now : Instant) : Duration :=
  ⟨min ((now - start) * nanosPerMilli) Duration.max.nanos, by have := Duration.max.fits; omega⟩

end Instant

end Isolate
