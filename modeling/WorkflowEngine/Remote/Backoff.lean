import WorkflowEngine.Duration

/-! # Backoff

    How long to wait before a call is tried again. Each delay follows from
    the one before; the delay before the first retry follows from zero.
-/

namespace WorkflowEngine

/-- How delays grow. -/
inductive BackoffStrategy where
  /-- Always the initial delay. -/
  | fixed
  /-- By the initial delay each time. -/
  | linear
  /-- By a factor each time. -/
  | exponential
  deriving DecidableEq, Repr, Inhabited

namespace BackoffStrategy

/-- All strategies. -/
def all : List BackoffStrategy := [fixed, linear, exponential]

/-- The name of a strategy. -/
def name : BackoffStrategy → String
  | fixed => "fixed"
  | linear => "linear"
  | exponential => "exponential"

/-- The strategy of a name. -/
def ofName? (s : String) : Option BackoffStrategy := all.find? fun b => b.name == s

end BackoffStrategy

/-- A policy for the delays between the attempts of a call. -/
structure Backoff where
  strategy : BackoffStrategy := .exponential
  /-- The first delay, below which no delay falls. -/
  initial : Duration := Duration.ofMillis 50
  /-- The delay that none exceeds, the initial one included. -/
  longest : Duration := Duration.ofMillis 5000
  /-- The factor of the exponential strategy. -/
  multiplier : Float := 2
  deriving DecidableEq

namespace Backoff

/-- The factor of growth: the multiplier, or one where it would not let delays grow. -/
def factor (b : Backoff) : Float :=
  if b.multiplier.isFinite && 1 ≤ b.multiplier then b.multiplier else 1

/-- The delay that the strategy alone prescribes. -/
def proposed (b : Backoff) (current : Duration) : Duration :=
  match b.strategy with
  | .fixed => b.initial
  | .linear => current.saturatingAdd b.initial
  | .exponential => .ofSeconds (min (current.toSeconds * b.factor) b.longest.toSeconds)

/-- The delay after the current one: never shorter than it or the initial delay,
    and never longer than the longest. -/
def next (b : Backoff) (current : Duration) : Duration :=
  min (max (max (b.proposed current) current) b.initial) b.longest

/-- Let delays follow each other until one repeats, for at most `n` steps. -/
def settle (b : Backoff) : Nat → Duration → Duration
  | 0, delay => delay
  | n + 1, delay =>
    let following := b.next delay
    if following = delay then delay else b.settle n following

/-- The delay before the retry of the given number, from one. -/
def delayOf (b : Backoff) (attempt : Nat) : Duration := b.settle (attempt - 1) (b.next 0)

end Backoff

end WorkflowEngine
