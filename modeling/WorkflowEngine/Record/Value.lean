import WorkflowEngine.Json.Comparison
import WorkflowEngine.Key

/-! # Record Values

    The payload of a record: which element of which workflow instance the
    record is about, in which enclosing scope, and with which variables.
-/

namespace WorkflowEngine

/-- Named JSON values. -/
abbrev Variables := SortedMap String Json

/-- The payload of a record about an element of a workflow instance. -/
structure RecordValue where
  /-- The process that the workflow implements. -/
  processId : String := ""
  workflowKey : Key := Key.unset
  instanceKey : Key := Key.unset
  elementId : String := ""
  scopeKey : Key := Key.unset
  vars : Variables := .empty
  deriving DecidableEq, Inhabited

namespace RecordValue

/-- Whether the element is enclosed by another one. -/
def hasScope (v : RecordValue) : Bool := v.scopeKey ≠ Key.unset

/-- Add a variable, or replace the one of the same name. -/
def setVariable (v : RecordValue) (name : String) (value : Json) : RecordValue :=
  { v with vars := v.vars.insert name value }

/-- Add variables in order, each as by `setVariable`. -/
def setVariables (v : RecordValue) (entries : List (String × Json)) : RecordValue :=
  entries.foldl (fun v e => v.setVariable e.1 e.2) v

/-- The workflow instance; a record that starts one names it by its own key. -/
def instanceOr (v : RecordValue) (key : Key) : Key :=
  if v.instanceKey = Key.unset then key else v.instanceKey

/-- The value with its workflow instance named, by the record's own key if unset. -/
def withInstance (v : RecordValue) (key : Key) : RecordValue :=
  { v with instanceKey := v.instanceOr key }

/-- The value without the signs of the zeros in its variables. -/
def dropZeroSigns (v : RecordValue) : RecordValue :=
  { v with vars := v.vars.mapValues Json.dropZeroSigns }

end RecordValue

end WorkflowEngine
