import WorkflowEngine.Key
import WorkflowEngine.Remote.Command

/-! # Errors

    The causes for which an operation of the engine fails.
-/

namespace WorkflowEngine

/-- Why an operation failed. -/
inductive EngineError where
  | config (text : String)
  | serialization (text : String)
  | deserialization (text : String)
  | io (text : String)
  | invalidArgument (text : String)
  | notFound (text : String)
  | timeout (text : String)
  | topology (text : String)
  | internal (text : String)
  | invalidState (text : String)
  /-- A token was asked of a scope that has none. -/
  | noDeferredToken (scope : Key)
  /-- A record contradicts the structure of its workflow. -/
  | invariantViolation (instanceKey recordKey : Key) (elementId reason : String)
  | command (error : CommandError)
  deriving DecidableEq, Repr

namespace EngineError

/-- The text of an error. -/
def message : EngineError → String
  | config text => "Configuration error: " ++ text
  | serialization text => "Serialization error: " ++ text
  | deserialization text => "Deserialization error: " ++ text
  | io text => "IO error: " ++ text
  | invalidArgument text => "Invalid argument: " ++ text
  | notFound text => "Not found: " ++ text
  | timeout text => "Timeout: " ++ text
  | topology text => "Topology unavailable: " ++ text
  | internal text => "Internal error: " ++ text
  | invalidState text => "Invalid state: " ++ text
  | noDeferredToken scope =>
    "No deferred token recorded for scope instance " ++ toString scope
  | invariantViolation instanceKey recordKey elementId reason =>
    "Invariant violated in workflow instance " ++ toString instanceKey ++ " (record " ++
      toString recordKey ++ ", element '" ++ elementId ++ "'): " ++ reason
  | command error => error.message

/-- Whether the error stops the workflow instance for good. -/
def isFatal : EngineError → Bool
  | noDeferredToken _ | invariantViolation .. | command _ => true
  | _ => false

/-- The workflow instance that the error names. -/
def instanceKey? : EngineError → Option Key
  | invariantViolation instanceKey .. => some instanceKey
  | _ => none

end EngineError

end WorkflowEngine
