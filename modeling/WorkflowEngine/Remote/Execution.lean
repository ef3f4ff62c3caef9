import WorkflowEngine.Remote.Backoff
import WorkflowEngine.Remote.Command

/-! # Executing Remote Commands

    A command is driven against a script that tells what each attempt
    brings: `executeFrom` attempts, reacts, waits and attempts again. It ends
    because every retry lowers the number of retries that are left.
-/

namespace WorkflowEngine

/-- What an attempt brings: nothing if it succeeds. -/
abbrev Attempt := Option Failure

/-- A failed attempt and what was made of it. -/
structure FailedAttempt where
  /-- The command as it met the failure. -/
  command : Command
  failure : Failure
  result : CommandResult

/-- The course of a command. -/
structure Execution where
  /-- The failed attempts in order. -/
  failures : List FailedAttempt
  /-- The delays before the retries in order. -/
  delays : List Duration
  /-- The command in the end. -/
  command : Command

namespace Execution

/-- The milliseconds that timers take to cover the delays. -/
def elapsedMillis (e : Execution) : Nat :=
  e.delays.foldl (fun ms delay => ms + delay.millisRoundedUp) 0

end Execution

namespace Command

/-- The number of retries that may still be scheduled. -/
def retriesLeft (c : Command) : Nat := c.maxRetries - c.retries

theorem retriesLeft_of_retry {next : Duration → Duration} {c c' : Command} {failure : Failure}
    (h : c.handleFailure next failure = .retry c') : c'.retriesLeft < c.retriesLeft := by
  simp only [handleFailure] at h
  split at h
  -- Without a code the command is over.
  · cases h
  · split at h
    · cases h
    · cases h
    · split at h
      -- A retry is scheduled only while one is left, and it uses that one up.
      · rename_i hmore
        cases h
        simp only [hasMoreRetries, decide_eq_true_eq] at hmore
        simp only [retriesLeft, scheduleRetry, increaseBackoff]
        omega
      · cases h
    · cases h

/-- Attempt a command until it is over. Attempt number `n`, from zero, brings
    `script n`; a scheduled retry number `n`, from one, is lost if `lost n`. -/
def executeFrom (next : Duration → Duration) (script : Nat → Attempt) (lost : Nat → Bool)
    (c : Command) : Execution :=
  let running := c.beginAttempt
  match script c.attempts with
  | none => ⟨[], [], running.complete (.ok .succeeded)⟩
  | some failure =>
    match _h : running.handleFailure next failure with
    | .finish c' result => ⟨[⟨running, failure, result⟩], [], c'⟩
    | .retry c' =>
      let first : FailedAttempt := ⟨running, failure, .ok .retryScheduled⟩
      -- A lost retry leaves the command as it was scheduled.
      if lost c'.retries then ⟨[first], [c'.backoff], c'⟩
      else
        let rest := c'.executeFrom next script lost
        ⟨first :: rest.failures, c'.backoff :: rest.delays, rest.command⟩
termination_by c.retriesLeft
decreasing_by exact retriesLeft_of_retry (c := c.beginAttempt) _h

/-- Execute a new command. -/
def execute (next : Duration → Duration) (maxRetries : Nat) (description : String)
    (script : Nat → Attempt) : Execution :=
  ({ description, maxRetries } : Command).executeFrom next script fun _ => false

end Command

end WorkflowEngine
