import WorkflowEngine.Model.Repository
import WorkflowEngine.Processing.Registry

/-! # Processing Records

    The records of a partition are handled one at a time in log order. What a
    record changes and what it emits is taken over together or not at all.

    ### Recovery

    `Engine.handle` gives the new state and the emitted records. Processing
    appends the emitted records to the log; replaying drops them. So a state
    can be rebuilt by handling the same records again.
-/

namespace WorkflowEngine

/-- Why a record is passed over. -/
inductive SkipReason where
  /-- No handler is responsible. -/
  | noHandler
  /-- The workflow instance is stopped. -/
  | blacklisted
  deriving DecidableEq, Repr

/-- How the handling of a record ends. -/
inductive Handling where
  | processed
  | skipped (reason : SkipReason)
  | failed (error : EngineError)
  deriving DecidableEq, Repr

/-- What records are handled with. -/
structure Engine where
  repository : Repository
  registry : Registry

/-- The state of a partition and how far its log has been handled. -/
structure Processor where
  state : PartitionState := .empty
  /-- The position of the last record that has been handled. -/
  lastProcessed : Nat := 0
  deriving DecidableEq

/-- The log of a partition with its processor. -/
structure Partition where
  log : Log
  processor : Processor := {}
  deriving DecidableEq

namespace PartitionState

/-- Undo the open transaction after an error, and stop the workflow instance if
    the error is fatal. -/
def abort (s : PartitionState) (e : EngineError) (instanceKey : Key) : PartitionState :=
  if e.isFatal then s.rollback.addToBlacklist instanceKey else s.rollback

end PartitionState

namespace Engine

/-! ## One record -/

/-- The program that a record calls for: none if no handler is responsible, and
    an error if its workflow or element does not exist. -/
def program? (e : Engine) (r : Record) : Except EngineError (Option (Program Unit)) :=
  let violation (reason : String) : EngineError :=
    .invariantViolation r.value.instanceKey r.key r.value.elementId reason
  match e.repository.get? r.value.workflowKey with
  | none =>
    .error (violation ("workflow " ++ toString r.value.workflowKey ++ " is not deployed"))
  | some workflow =>
    match workflow.element? r.value.elementId with
    | none =>
      .error (violation ("element is not part of workflow " ++ toString workflow.key))
    | some element =>
      .ok ((e.registry.get? ⟨element.kind, r.intent⟩).map fun handler =>
        handler ⟨r, workflow, element⟩)

/-- Run the program of a record in a transaction. -/
def transact (s : PartitionState) (r : Record) (program : Program Unit) :
    Handling × PartitionState × List PendingRecord :=
  match program.run ⟨s.begin, ⟨r.position, []⟩⟩ with
  -- What a failed program has emitted is dropped with its changes.
  | (.ok (), w) => (.processed, w.state.commit, w.output.pending)
  | (.error e, w) => (.failed e, w.state.abort e r.value.instanceKey, [])

/-- Handle a record: how it ends, the new state, and the emitted records. -/
def handle (e : Engine) (s : PartitionState) (r : Record) :
    Handling × PartitionState × List PendingRecord :=
  if s.isBlacklisted r.value.instanceKey then (.skipped .blacklisted, s, [])
  else
    match e.program? r with
    | .error error => (.failed error, s.abort error r.value.instanceKey, [])
    | .ok none => (.skipped .noHandler, s, [])
    | .ok (some program) => transact s r program

/-! ## A partition -/

/-- Process the next record of the log, if there is one. -/
def processNext (e : Engine) (p : Partition) : Option (Handling × Partition) :=
  match p.log.read? (p.processor.lastProcessed + 1) with
  | none => none
  | some r =>
    let (handling, state, emitted) := e.handle p.processor.state r
    some (handling, ⟨p.log.appendAll emitted, ⟨state, p.processor.lastProcessed + 1⟩⟩)

/-- Process records until the log has no more, at most the given number. Gives
    the number of processed records. -/
def drain (e : Engine) : Nat → Partition → Nat × Partition
  | 0, p => (0, p)
  | limit + 1, p =>
    match e.processNext p with
    | none => (0, p)
    | some (_, p) =>
      let (count, p) := e.drain limit p
      (count + 1, p)

/-- Handle records again without appending what they emit. -/
def replay (e : Engine) (s : PartitionState) (records : List Record) : PartitionState :=
  records.foldl (fun s r => (e.handle s r).2.1) s

/-- The records of a partition that are not handled yet, up to the last one that
    has emitted others. -/
def unrecovered (p : Partition) : List Record :=
  (p.log.recordsFrom (p.processor.lastProcessed + 1)).take
    (p.log.lastSourcePosition - p.processor.lastProcessed)

/-- Rebuild the state from the log: replay every record up to the last one that
    has emitted others. Gives the number of replayed records. -/
def recover (e : Engine) (p : Partition) : Nat × Partition :=
  let records := unrecovered p
  (records.length,
    { p with
      processor :=
        ⟨e.replay p.processor.state records,
          max p.processor.lastProcessed p.log.lastSourcePosition⟩ })

end Engine

namespace Partition

/-- Append a record from outside. -/
def append (p : Partition) (r : PendingRecord) : Partition := { p with log := p.log.append r }

/-- Start over with a new processor on the same log. -/
def restart (p : Partition) : Partition := { p with processor := {} }

end Partition

end WorkflowEngine
