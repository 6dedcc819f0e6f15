import LiveQuery.Extended

/-!
# Durations

Lengths of time in whole nanoseconds, and their passage to seconds in binary64
and back. The way back rounds the exact value to the nearest nanosecond.
-/

namespace LiveQuery

/-- A length of time in nanoseconds. -/
structure Duration where
  nanos : Nat
deriving DecidableEq, Repr

namespace Duration

def zero : Duration := ⟨0⟩

def ofSeconds (seconds : Nat) : Duration := ⟨seconds * 10 ^ 9⟩

def ofMillis (millis : Nat) : Duration := ⟨millis * 10 ^ 6⟩

/-- What the clock shows between two things that happen right after one another: enough to be
    measured, and far less than a millisecond. -/
def moment : Duration := ⟨1000⟩

/-- The whole milliseconds after which this length of time has passed. -/
def ceilMillis (d : Duration) : Nat := (d.nanos + (10 ^ 6 - 1)) / 10 ^ 6

/-- Seconds in binary64: the whole seconds and the rest are converted apart and added. -/
def toSeconds (d : Duration) : Extended :=
  (Extended.ofRatio false (d.nanos / 10 ^ 9) 1).add
    (Extended.ofRatio false (d.nanos % 10 ^ 9) (10 ^ 9))

/-- The seconds a duration may not reach: they are counted in a 64-bit word. -/
def secondsLimit : Nat := 2 ^ 64

/-- The duration nearest to a number of seconds, if there is one. -/
def ofSeconds? : Extended → Option Duration
  | .finite x =>
    let nanos := Binary64.nearest (x.numerator * 10 ^ 9) x.denominator
    if x.negative && !x.isZero then none
    else if nanos < secondsLimit * 10 ^ 9 then some ⟨nanos⟩ else none
  | _ => none

/-- Seconds with nine digits after the point. -/
def text (d : Duration) : String :=
  let rest := toString (d.nanos % 10 ^ 9)
  toString (d.nanos / 10 ^ 9) ++ "." ++ String.ofList (List.replicate (9 - rest.length) '0') ++ rest

end Duration

end LiveQuery
