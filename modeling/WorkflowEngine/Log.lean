import WorkflowEngine.Record.Basic

/-! # The Log of a Partition

    Records are appended and never change. The record at index `i` has
    position `i + 1`. A record about a new entity is given the next fresh key
    of the partition; a record about an existing entity keeps its key and
    leaves the counter alone.
-/

namespace WorkflowEngine

/-- The log of a partition. -/
structure Log where
  partitionId : PartitionId
  /-- The records by position. -/
  records : List Record := []
  /-- The counter of the next fresh key. -/
  nextKey : Nat := 1
  deriving DecidableEq

namespace Log

/-- The position of the last record; zero while there is none. -/
def lastPosition (l : Log) : Nat := l.records.length

/-- The record that the log makes of a pending one. -/
def record (l : Log) (p : PendingRecord) : Record where
  position := l.lastPosition + 1
  key := p.key.getD (Key.encode l.partitionId l.nextKey)
  partitionId := l.partitionId
  intent := p.intent
  value := p.value
  sourcePosition := p.sourcePosition

/-- Append a record. -/
def append (l : Log) (p : PendingRecord) : Log where
  partitionId := l.partitionId
  records := l.records ++ [l.record p]
  nextKey := if p.key.isSome then l.nextKey else l.nextKey + 1

/-- Append records in order. -/
def appendAll (l : Log) (ps : List PendingRecord) : Log := ps.foldl append l

/-- The record at a position. -/
def read? (l : Log) (position : Nat) : Option Record :=
  if position = 0 then none else l.records[position - 1]?

/-- The records from a position on. -/
def recordsFrom (l : Log) (position : Nat) : List Record := l.records.drop (position - 1)

/-- The greatest source position in the log; zero if no record has one. -/
def lastSourcePosition (l : Log) : Nat :=
  (l.records.filterMap (·.sourcePosition)).foldl max 0

end Log

/-! ## Writers -/

/-- The records emitted while one record is handled, before the log takes them. -/
structure Writer where
  /-- The position of the record that is handled. -/
  sourcePosition : Nat
  /-- The emitted records in order. -/
  pending : List PendingRecord := []
  deriving DecidableEq

namespace Writer

/-- Emit a record about a new entity. -/
def emit (w : Writer) (intent : Intent) (value : RecordValue) : Writer :=
  { w with pending := w.pending ++ [.followUp intent value w.sourcePosition] }

/-- Emit a record about an existing entity. -/
def emitAbout (w : Writer) (key : Key) (intent : Intent) (value : RecordValue) : Writer :=
  { w with
    pending := w.pending ++ [(PendingRecord.followUp intent value w.sourcePosition).withKey key] }

/-- Forget what has been emitted. -/
def reset (w : Writer) : Writer := { w with pending := [] }

/-- Hand what has been emitted to a log, and forget it. -/
def flush (w : Writer) (l : Log) : Writer × Log := (w.reset, l.appendAll w.pending)

end Writer

end WorkflowEngine
