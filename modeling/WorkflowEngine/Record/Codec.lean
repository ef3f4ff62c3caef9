import WorkflowEngine.Json.Fields
import WorkflowEngine.Number.Word
import WorkflowEngine.Record.Basic
import WorkflowEngine.Timestamp

/-! # Records as JSON

    Field names are in camel case. The variables of a value and the source
    position of a record may be left out; all else is required.
-/

namespace WorkflowEngine

namespace Intent

/-- The document of an intent. -/
def toDocument (i : Intent) : Document := .text i.name

/-- The intent of a document. -/
def ofDocument? (d : Document) : Option Intent := d.asCase? >>= ofName?

end Intent

namespace Variables

/-- The document of named values. -/
def toDocument (vs : Variables) : Document :=
  .object (vs.entries.map fun (name, value) => (name, value.document))

/-- The named values of an object; of a repeated name the last value counts. -/
def ofDocument? : Document → Option Variables
  | .object fields =>
    (fields.mapM fun (field : String × Document) =>
      (Json.ofDocument? field.2).map (field.1, ·)).map SortedMap.ofList
  | _ => none

end Variables

namespace RecordValue

/-- The fields of a value. -/
def fieldNames : List String :=
  ["bpmnProcessId", "workflowKey", "workflowInstanceKey", "elementId", "scopeInstanceKey",
    "variables"]

/-- The document of a value. -/
def toDocument (v : RecordValue) : Document :=
  .object
    [("bpmnProcessId", .text v.processId), ("workflowKey", .integer v.workflowKey),
      ("workflowInstanceKey", .integer v.instanceKey), ("elementId", .text v.elementId),
      ("scopeInstanceKey", .integer v.scopeKey), ("variables", Variables.toDocument v.vars)]

/-- The value of a document. -/
def ofDocument? (d : Document) : Option RecordValue := do
  match ← d.fields? fieldNames with
  | [some processId, some workflowKey, some instanceKey, some elementId, some scopeKey,
      vars] =>
    let processId ← processId.asText?
    let workflowKey ← workflowKey.asInt64?
    let instanceKey ← instanceKey.asInt64?
    let elementId ← elementId.asText?
    let scopeKey ← scopeKey.asInt64?
    let vars ← Document.orDefault .empty Variables.ofDocument? vars
    return { processId, workflowKey, instanceKey, elementId, scopeKey, vars }
  | _ => none

end RecordValue

/-- A record with the moment at which it was appended. -/
structure StampedRecord where
  record : Record
  timestamp : Timestamp
  deriving DecidableEq

namespace StampedRecord

/-- The fields of a record. -/
def fieldNames : List String :=
  ["position", "key", "partitionId", "intent", "value", "sourcePosition", "timestamp"]

/-- The document of a source position. -/
def sourceDocument : Option Nat → Document
  | some position => .integer position
  | none => .null

/-- The source position of a document. -/
def sourceOfDocument? : Document → Option (Option Nat)
  | .null => some none
  | d => (d.asNat? words64).map some

/-- The document of a record. -/
def toDocument (r : StampedRecord) : Document :=
  .object
    [("position", .integer r.record.position), ("key", .integer r.record.key),
      ("partitionId", .integer r.record.partitionId),
      ("intent", r.record.intent.toDocument), ("value", r.record.value.toDocument),
      ("sourcePosition", sourceDocument r.record.sourcePosition),
      ("timestamp", .text r.timestamp.write)]

/-- The record of a document. -/
def ofDocument? (d : Document) : Option StampedRecord := do
  match ← d.fields? fieldNames with
  | [some position, some key, some partitionId, some intent, some value, sourcePosition,
      some timestamp] =>
    let position ← position.asNat? words64
    let key ← key.asInt64?
    let partitionId ← partitionId.asNat? words32
    let intent ← Intent.ofDocument? intent
    let value ← RecordValue.ofDocument? value
    let sourcePosition ← Document.orDefault none sourceOfDocument? sourcePosition
    let timestamp ← timestamp.asText? >>= Timestamp.ofText?
    return ⟨{ position, key, partitionId, intent, value, sourcePosition }, timestamp⟩
  | _ => none

end StampedRecord

end WorkflowEngine
