import WorkflowEngine.Duration
import WorkflowEngine.Remote.Status

/-! # Remote Commands

    A command is a remote effect that is attempted until it succeeds, turns
    out to be moot, fails for good, or has no retries left. Its first final
    result is the one that its caller sees.
-/

namespace WorkflowEngine

/-- The life of a command. -/
inductive CommandState where
  | pending
  | succeeded
  | ignored
  | retryScheduled
  | failed
  deriving DecidableEq, Repr, Inhabited

namespace CommandState

/-- All states. -/
def all : List CommandState := [pending, succeeded, ignored, retryScheduled, failed]

/-- The name of a state. -/
def name : CommandState → String
  | pending => "pending"
  | succeeded => "succeeded"
  | ignored => "ignored"
  | retryScheduled => "retry_scheduled"
  | failed => "failed"

/-- The state of a name. -/
def ofName? (s : String) : Option CommandState := all.find? fun c => c.name == s

/-- Whether the command will not be attempted again. -/
def isTerminal : CommandState → Bool
  | succeeded | ignored | failed => true
  | pending | retryScheduled => false

end CommandState

/-- Why a command failed for good. -/
inductive CommandError where
  /-- The last retry failed with a code that another one might have overcome. -/
  | retriesExhausted (command : String) (code : StatusCode)
  /-- The other side answered with a permanent failure. -/
  | failed (command : String) (code : StatusCode)
  /-- There was no answer. -/
  | exception (command : String) (message : String)
  deriving DecidableEq, Repr

namespace CommandError

/-- The text of an error. -/
def message : CommandError → String
  | retriesExhausted command code =>
    "Could not execute " ++ command ++ " due to error of type '" ++ code.name ++
      "' and no retries are left"
  | failed command code =>
    "Could not execute " ++ command ++ " due to error of type '" ++ code.name ++ "'"
  | exception command text =>
    "Could not execute " ++ command ++ " due to exception: " ++ text

/-- The status code, if the other side answered. -/
def code? : CommandError → Option StatusCode
  | retriesExhausted _ code | failed _ code => some code
  | exception _ _ => none

/-- The command that failed. -/
def command : CommandError → String
  | retriesExhausted command _ | failed command _ | exception command _ => command

end CommandError

/-- How a command ended, or the state in which it was left. -/
abbrev CommandResult := Except CommandError CommandState

/-- A command on its way. -/
structure Command where
  description : String
  /-- How often it may be tried again. -/
  maxRetries : Nat
  /-- How often another attempt has been scheduled. -/
  retries : Nat := 0
  /-- How often it has been attempted. -/
  attempts : Nat := 0
  /-- The delay before the last scheduled attempt. -/
  backoff : Duration := 0
  state : CommandState := .pending
  /-- The first final result reported. -/
  completion : Option CommandResult := none

namespace Command

/-- Whether another attempt may be scheduled. -/
def hasMoreRetries (c : Command) : Bool := c.retries < c.maxRetries

/-- Let the delay grow. -/
def increaseBackoff (next : Duration → Duration) (c : Command) : Command :=
  { c with backoff := next c.backoff }

/-- Schedule another attempt. -/
def scheduleRetry (c : Command) : Command :=
  { c with retries := c.retries + 1, state := .retryScheduled }

/-- Begin an attempt. -/
def beginAttempt (c : Command) : Command :=
  { c with attempts := c.attempts + 1, state := .pending }

/-- Report a result; only the first one is kept. -/
def complete (c : Command) (result : CommandResult) : Command :=
  { c with
    state :=
      match result with
      | .ok state => state
      | .error _ => .failed
    completion := c.completion.or (some result) }

/-- What the caller sees once the command is gone. -/
def outcome (c : Command) : CommandResult :=
  c.completion.getD
    (.error (.exception c.description "command was dropped before completing"))

end Command

/-! ## Failed attempts -/

/-- What follows from a failed attempt. -/
inductive Reaction where
  /-- Another attempt after the command's delay. -/
  | retry (command : Command)
  /-- The command is over with the given result. -/
  | finish (command : Command) (result : CommandResult)

namespace Reaction

/-- What the reaction is reported as. -/
def result : Reaction → CommandResult
  | retry _ => .ok .retryScheduled
  | finish _ result => result

/-- The command after the reaction. -/
def command : Reaction → Command
  | retry command => command
  | finish command _ => command

end Reaction

/-- React to a failed attempt: passing failures are retried with a grown delay
    while retries are left, and everything else ends the command. -/
def Command.handleFailure (next : Duration → Duration) (c : Command) (failure : Failure) :
    Reaction :=
  let finish (result : CommandResult) := Reaction.finish (c.complete result) result
  match failure.code? with
  | none => finish (.error (.exception c.description failure.message))
  | some code =>
    match code.outcome with
    | .success => finish (.ok .succeeded)
    | .ignorableFailure => finish (.ok .ignored)
    | .retriable =>
      if c.hasMoreRetries then .retry (c.increaseBackoff next).scheduleRetry
      else finish (.error (.retriesExhausted c.description code))
    | .fatal => finish (.error (.failed c.description code))

end WorkflowEngine
