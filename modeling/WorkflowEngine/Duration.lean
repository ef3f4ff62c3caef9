import WorkflowEngine.Number.Binary64
import WorkflowEngine.Number.Word

/-! # Durations

    A duration is a whole number of nanoseconds below `2 ^ 64` seconds.
-/

namespace WorkflowEngine

/-- A length of time in nanoseconds. -/
abbrev Duration := Nat

namespace Duration

/-- Nanoseconds in a second. -/
def second : Duration := 1000000000

/-- Nanoseconds in a millisecond. -/
def millisecond : Duration := 1000000

/-- The longest duration. -/
def longest : Duration := words64 * second - 1

/-- A whole number of milliseconds. -/
def ofMillis (ms : Nat) : Duration := ms * millisecond

/-- Whole seconds and the nanoseconds that remain. -/
def ofParts (seconds nanoseconds : Nat) : Duration := seconds * second + nanoseconds

/-- The whole seconds of a duration. -/
def seconds (d : Duration) : Nat := d / second

/-- The nanoseconds beyond the whole seconds. -/
def nanoseconds (d : Duration) : Nat := d % second

/-- The milliseconds that a timer takes to cover the duration. -/
def millisRoundedUp (d : Duration) : Nat := (d + (millisecond - 1)) / millisecond

/-- The sum, kept at the longest duration. -/
def saturatingAdd (a b : Duration) : Duration := min (a + b) longest

/-- The duration as a float of seconds: whole seconds plus the fraction, each
    rounded, then their sum rounded. -/
def toSeconds (d : Duration) : Float :=
  d.seconds.toUInt64.toFloat + d.nanoseconds.toUInt64.toFloat / 1e9

/-- The duration nearest to a float of seconds, a half nanosecond to the even one. -/
def ofSeconds (s : Float) : Duration := (BinaryFraction.ofFloat s).roundScaled second

end Duration

end WorkflowEngine
