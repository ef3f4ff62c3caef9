/-! # Status of Remote Calls

    A remote call that fails answers with one of seventeen status codes, or
    never reaches the point of answering. The code decides whether the call
    counts as done, is moot, can be tried again, or has failed for good.
-/

namespace WorkflowEngine

/-- The status codes of a remote call. -/
inductive StatusCode where
  | ok
  | cancelled
  | unknown
  | invalidArgument
  | deadlineExceeded
  | notFound
  | alreadyExists
  | permissionDenied
  | resourceExhausted
  | failedPrecondition
  | aborted
  | outOfRange
  | unimplemented
  | internal
  | unavailable
  | dataLoss
  | unauthenticated
  deriving DecidableEq, Repr, Inhabited

namespace StatusCode

/-- All status codes in the order of their numbers. -/
def all : List StatusCode :=
  [ok, cancelled, unknown, invalidArgument, deadlineExceeded, notFound, alreadyExists,
    permissionDenied, resourceExhausted, failedPrecondition, aborted, outOfRange,
    unimplemented, internal, unavailable, dataLoss, unauthenticated]

/-- The code of a number; every other number is `unknown`. -/
def ofNumber (n : Int) : StatusCode :=
  if n < 0 then unknown else all.getD n.toNat unknown

/-- The name of a code. -/
def name : StatusCode → String
  | ok => "Ok"
  | cancelled => "Cancelled"
  | unknown => "Unknown"
  | invalidArgument => "InvalidArgument"
  | deadlineExceeded => "DeadlineExceeded"
  | notFound => "NotFound"
  | alreadyExists => "AlreadyExists"
  | permissionDenied => "PermissionDenied"
  | resourceExhausted => "ResourceExhausted"
  | failedPrecondition => "FailedPrecondition"
  | aborted => "Aborted"
  | outOfRange => "OutOfRange"
  | unimplemented => "Unimplemented"
  | internal => "Internal"
  | unavailable => "Unavailable"
  | dataLoss => "DataLoss"
  | unauthenticated => "Unauthenticated"

end StatusCode

/-- What a failure means for the caller. -/
inductive Outcome where
  /-- The effect is in place. -/
  | success
  /-- The target is gone, so the effect is moot. -/
  | ignorableFailure
  /-- The failure may pass. -/
  | retriable
  /-- The failure is permanent. -/
  | fatal
  deriving DecidableEq, Repr

namespace Outcome

/-- The name of an outcome. -/
def name : Outcome → String
  | success => "success"
  | ignorableFailure => "ignorable_failure"
  | retriable => "retriable"
  | fatal => "fatal"

end Outcome

/-- What a status code means for the caller; `alreadyExists` is the answer to a
    call whose effect is in place from an earlier attempt. -/
def StatusCode.outcome : StatusCode → Outcome
  | ok | alreadyExists => .success
  | notFound => .ignorableFailure
  | cancelled | deadlineExceeded | resourceExhausted | aborted | unavailable | dataLoss =>
    .retriable
  | _ => .fatal

/-- Why a remote call did not succeed. -/
inductive Failure where
  | status (code : StatusCode) (message : String)
  /-- There was no answer. -/
  | other (message : String)
  deriving DecidableEq, Repr

namespace Failure

/-- The status code, if the other side answered. -/
def code? : Failure → Option StatusCode
  | status code _ => some code
  | other _ => none

/-- What the failure means; without an answer it is permanent. -/
def outcome (f : Failure) : Outcome := (f.code?.map StatusCode.outcome).getD .fatal

/-- The text of a failure. -/
def message : Failure → String
  | status code text => code.name ++ ": " ++ text
  | other text => text

end Failure

end WorkflowEngine
