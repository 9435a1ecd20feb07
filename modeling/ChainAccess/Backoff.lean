import ChainAccess.Json.Record
-- How often a call is tried and how long is waited between two attempts: the
-- wait doubles after each failure up to a cap.

namespace ChainAccess

/-- A span of time: whole seconds, and nanoseconds of the next one. -/
structure Span where
  seconds : UInt64
  nanos : UInt32
  deriving DecidableEq, Repr

namespace Span

/-- The span of so many milliseconds. -/
def ofMillis (n : UInt64) : Span := ⟨n / 1000, (n % 1000).toUInt32 * 1000000⟩

/-- The whole milliseconds of a span, of which 64 bits are kept. -/
def millis (s : Span) : UInt64 :=
  UInt64.ofNat (s.seconds.toNat * 1000 + s.nanos.toNat / 1000000)

end Span

/-- A policy of attempts; times are in milliseconds. -/
structure Backoff where
  /-- All attempts together, the first one included. -/
  attempts : UInt32
  /-- The wait after the first failure. -/
  initial : UInt64
  /-- The longest wait. -/
  cap : UInt64
  deriving DecidableEq, Repr

namespace Backoff

/-- Eight attempts, waiting one second and at most eight. -/
def default : Backoff := ⟨8, 1000, 8000⟩

/-- The longest span that can be told, in milliseconds. -/
def longestSpan : Nat := (UInt64.size - 1) * 1000 + 999

/-- The factor behind the failed attempt `n`, counted from one: a power of two
while 32 bits hold it, and the largest such number from then on. -/
def factor (n : UInt32) : Nat :=
  let doublings := n.toNat - 1
  if doublings < 32 then Nat.pow 2 doublings else UInt32.size - 1

/-- The wait after the failed attempt `n`. A span too long to be told counts
as the cap. -/
def delay (b : Backoff) (n : UInt32) : Nat :=
  let span := b.initial.toNat * factor n
  if span ≤ longestSpan then min span b.cap.toNat else b.cap.toNat

/-! ## JSON -/

/-- The fields of a policy. -/
def shape : Json.Shape :=
  ⟨[Json.field "max_retries" Json.readUInt32, Json.field "initial_delay_ms" Json.readUInt64,
    Json.field "max_delay_ms" Json.readUInt64], false⟩

/-- Reads a policy. -/
def read : Json.Read Backoff := fun v => do
  let r ← shape.read v
  return ⟨← r.get "max_retries" Json.readUInt32, ← r.get "initial_delay_ms" Json.readUInt64,
    ← r.get "max_delay_ms" Json.readUInt64⟩

/-- A policy in JSON. -/
def toJson (b : Backoff) : Json :=
  .obj [("max_retries", .ofUInt64 b.attempts.toUInt64),
    ("initial_delay_ms", .ofUInt64 (Span.ofMillis b.initial).millis),
    ("max_delay_ms", .ofUInt64 (Span.ofMillis b.cap).millis)]

end Backoff

end ChainAccess
