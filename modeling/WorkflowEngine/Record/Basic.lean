import WorkflowEngine.Record.Intent
import WorkflowEngine.Record.Value

/-! # Records

    The log of a partition is a list of records. A record that the processor
    emitted while handling another one carries the position of that other
    record; a record that came from outside carries none.
-/

namespace WorkflowEngine

/-- An entry of the log of a partition. -/
structure Record where
  /-- The place in the log, from one. -/
  position : Nat
  key : Key
  partitionId : PartitionId
  intent : Intent
  value : RecordValue
  /-- The position of the record whose handling emitted this one. -/
  sourcePosition : Option Nat
  deriving DecidableEq, Inhabited

/-- A record that no log has taken yet. -/
structure PendingRecord where
  /-- The entity that the record is about; without one the log draws a fresh key. -/
  key : Option Key
  intent : Intent
  value : RecordValue
  /-- The position of the record whose handling emitted this one. -/
  sourcePosition : Option Nat
  deriving DecidableEq

namespace Record

/-- Whether the processor emitted the record. -/
def isFollowUp (r : Record) : Bool := r.sourcePosition.isSome

/-- The workflow instance that the record belongs to: its own key if it starts one. -/
def instanceKey (r : Record) : Key := r.value.instanceOr r.key

end Record

namespace PendingRecord

/-- A record from outside about a new entity. -/
def external (intent : Intent) (value : RecordValue) : PendingRecord :=
  ⟨none, intent, value, none⟩

/-- A record about a new entity, emitted while handling the given position. -/
def followUp (intent : Intent) (value : RecordValue) (source : Nat) : PendingRecord :=
  ⟨none, intent, value, some source⟩

/-- The record about an existing entity. -/
def withKey (p : PendingRecord) (key : Key) : PendingRecord := { p with key := some key }

end PendingRecord

end WorkflowEngine
