import LiveQuery.Duration

/-!
# Backoff

How long to wait before the stream is opened again. The wait grows by a factor
with every failure in a row, up to a limit. A stream that stayed open long
enough ends the row.
-/

namespace LiveQuery

/-- The shape of the waits. -/
structure BackoffConfig where
  initial : Duration
  longest : Duration
  /-- The factor of growth. -/
  multiplier : Extended := .oneAndHalf
  /-- How far a wait may lie from its middle, as a part of it. -/
  jitter : Extended := .half
  resetAfter : Duration := .ofSeconds 60

/-- How long to wait. -/
inductive Wait where
  | lasting (length : Duration)
  /-- Longer than any duration. -/
  | beyond

namespace Wait

/-- The length of a wait that has one. -/
def length? : Wait → Option Duration
  | .lasting length => some length
  | .beyond => none

end Wait

namespace BackoffConfig

/-- From one second to one minute. -/
def standard : BackoffConfig := { initial := .ofSeconds 1, longest := .ofSeconds 60 }

/-- No wait at all. -/
def immediate : BackoffConfig where
  initial := .zero
  longest := .zero
  multiplier := .one
  jitter := .zero
  resetAfter := .zero

/-- The waits never shrink, so the factor is at least one. -/
def withMultiplier (config : BackoffConfig) (multiplier : Extended) : BackoffConfig :=
  { config with multiplier := multiplier.greatest .one }

/-- The jitter is a part of the wait, between nothing and all of it. -/
def withJitter (config : BackoffConfig) (jitter : Extended) : BackoffConfig :=
  { config with jitter :=
      if jitter.below .zero then .zero else if Extended.one.below jitter then .one else jitter }

/-- How long a stream has to stay open to end a row of failures. -/
def withResetAfter (config : BackoffConfig) (period : Duration) : BackoffConfig :=
  { config with resetAfter := period }

/-- The greatest exponent of the factor. -/
def exponentLimit : Nat := 2 ^ 31 - 1

/-- The middle of the wait before the given attempt, in seconds. -/
def seconds (config : BackoffConfig) (attempt : Nat) : Extended :=
  let growth := config.multiplier.power (min (attempt - 1) exponentLimit)
  (config.initial.toSeconds.mul growth).least config.longest.toSeconds

/-- The middle of the wait before the given attempt. There is no wait before the first attempt. -/
def wait (config : BackoffConfig) (attempt : Nat) : Wait :=
  if attempt = 0 then .lasting .zero
  else (Duration.ofSeconds? (config.seconds attempt)).elim .beyond .lasting

/-- Whether a wait is drawn at random from the range that the jitter leaves around its middle. -/
def isJittered (config : BackoffConfig) : Bool := Extended.zero.below config.jitter

end BackoffConfig

/-- The failures in a row so far, and since when the stream is open. Times are counted from the
    start of one clock. -/
structure Backoff where
  config : BackoffConfig
  attempt : Nat := 0
  healthySince : Option Duration := none

namespace Backoff

/-- The counter of failures stops here. -/
def attemptLimit : Nat := 2 ^ 32 - 1

/-- The wait that belongs to the failures so far. -/
def currentWait (b : Backoff) : Wait := b.config.wait b.attempt

/-- The stream opened. -/
def recordOpen (b : Backoff) (now : Duration) : Backoff := { b with healthySince := some now }

/-- Whether the stream has been open for the period that ends a row of failures. -/
def recovered (b : Backoff) (now : Duration) : Bool :=
  match b.healthySince with
  | none => false
  | some since => b.config.resetAfter.nanos ≤ now.nanos - since.nanos

/-- One more failure, the first of a new row if the stream had recovered. -/
def recordFailure (b : Backoff) (now : Duration) : Backoff :=
  let before := if b.recovered now then 0 else b.attempt
  { b with attempt := min (before + 1) attemptLimit, healthySince := none }

/-- Forgets the failures. -/
def reset (b : Backoff) : Backoff := { b with attempt := 0, healthySince := none }

end Backoff

end LiveQuery
