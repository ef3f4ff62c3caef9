import WorkflowEngine.Processing.Engine
import WorkflowEngine.Proofs.Deployment
import WorkflowEngine.Proofs.Log

/-! # Runs of a Partition

    A run starts with an empty log. Records are appended from outside and the
    processor takes the next record, in any order. In a run with restarts the
    processor may also be thrown away at any time; the new one recovers from
    the log.
-/

namespace WorkflowEngine

/-- A partition with an empty log and a new processor. -/
def Partition.fresh (id : PartitionId) : Partition := ⟨{ partitionId := id }, {}⟩

namespace Engine

variable {e : Engine} {id : PartitionId} {p : Partition}

/-! ## One step of the processor -/

section Step

variable {s : PartitionState} {r : Record}

theorem handle_of_blacklisted (h : s.isBlacklisted r.value.instanceKey = true) :
    e.handle s r = (.skipped .blacklisted, s, []) := by
  unfold handle
  rw [if_pos h]

theorem handle_of_free (h : s.isBlacklisted r.value.instanceKey = false) :
    e.handle s r = match e.program? r with
      | .error error => (.failed error, s.abort error r.value.instanceKey, [])
      | .ok none => (.skipped .noHandler, s, [])
      | .ok (some program) => transact s r program := by
  have hfree : ¬s.isBlacklisted r.value.instanceKey = true := by simp [h]
  unfold handle
  cases e.program? r with
  | error error => exact if_neg hfree
  | ok program? => cases program? <;> exact if_neg hfree

/-- The partition after the next record was handled. -/
def after (e : Engine) (p : Partition) (r : Record) : Partition :=
  ⟨p.log.appendAll (e.handle p.processor.state r).2.2,
    ⟨(e.handle p.processor.state r).2.1, p.processor.lastProcessed + 1⟩⟩

@[simp] theorem after_log (e : Engine) (p : Partition) (r : Record) :
    (e.after p r).log = p.log.appendAll (e.handle p.processor.state r).2.2 := rfl

@[simp] theorem after_state (e : Engine) (p : Partition) (r : Record) :
    (e.after p r).processor.state = (e.handle p.processor.state r).2.1 := rfl

@[simp] theorem after_lastProcessed (e : Engine) (p : Partition) (r : Record) :
    (e.after p r).processor.lastProcessed = p.processor.lastProcessed + 1 := rfl

theorem processNext_of_read? (h : p.log.read? (p.processor.lastProcessed + 1) = some r) :
    e.processNext p = some ((e.handle p.processor.state r).1, e.after p r) := by
  unfold processNext after
  rw [h]

end Step

/-- **What processing a record does**: the handling of the record in the present
    state decides everything, and the position moves on by one. -/
theorem processNext_eq_some_iff {o : Handling × Partition} :
    e.processNext p = some o ↔
      ∃ r, p.log.read? (p.processor.lastProcessed + 1) = some r ∧
        o = ((e.handle p.processor.state r).1, e.after p r) := by
  constructor
  · intro h
    cases hr : p.log.read? (p.processor.lastProcessed + 1) with
    | none =>
      unfold processNext at h
      rw [hr] at h
      cases h
    | some r =>
      rw [processNext_of_read? hr] at h
      exact ⟨r, rfl, (Option.some.inj h).symm⟩
  · rintro ⟨r, hr, rfl⟩
    exact processNext_of_read? hr

/-- What every processed record keeps, processing all of them keeps. -/
theorem drain_induction {P : Partition → Prop}
    (hnext : ∀ {p o}, P p → e.processNext p = some o → P o.2) (h : P p) (limit : Nat) :
    P (e.drain limit p).2 := by
  induction limit generalizing p with
  | zero => exact h
  | succ limit ih =>
    unfold Engine.drain
    split
    · exact h
    · rename_i o q hq
      exact ih (hnext h hq)

/-! ## Reachable partitions -/

/-- The partitions that a run reaches if `allowed` says which records may be
    appended to which log. -/
inductive Reaches (e : Engine) (allowed : Log → PendingRecord → Prop) (id : PartitionId) :
    Partition → Prop where
  /-- A run starts with an empty log. -/
  | start : Reaches e allowed id (.fresh id)
  /-- A record is appended from outside. -/
  | append {p : Partition} {r : PendingRecord} :
      Reaches e allowed id p → allowed p.log r → Reaches e allowed id (p.append r)
  /-- The next record is processed. -/
  | next {p : Partition} {o : Handling × Partition} :
      Reaches e allowed id p → e.processNext p = some o → Reaches e allowed id o.2

/-- The partitions that a run with restarts reaches. The records from outside
    have no source position. -/
inductive Endures (e : Engine) (id : PartitionId) : Partition → Prop where
  /-- A run starts with an empty log. -/
  | start : Endures e id (.fresh id)
  /-- A record is appended from outside. -/
  | append {p : Partition} {r : PendingRecord} :
      Endures e id p → r.sourcePosition = none → Endures e id (p.append r)
  /-- The next record is processed. -/
  | next {p : Partition} {o : Handling × Partition} :
      Endures e id p → e.processNext p = some o → Endures e id o.2
  /-- A new processor recovers from the log. -/
  | restart {p : Partition} : Endures e id p → Endures e id (e.recover p.restart).2

theorem Reaches.drain {allowed : Log → PendingRecord → Prop} (h : Reaches e allowed id p)
    (limit : Nat) : Reaches e allowed id (e.drain limit p).2 :=
  drain_induction (fun h ho => h.next ho) h limit

theorem Endures.drain (h : Endures e id p) (limit : Nat) : Endures e id (e.drain limit p).2 :=
  drain_induction (fun h ho => h.next ho) h limit

/-! ## States along the log -/

/-- The state that handling the first records of a log leads to, from the empty
    state and without taking over what they emit. -/
def stateAt (e : Engine) (l : Log) (n : Nat) : PartitionState := e.replay .empty (l.records.take n)

theorem stateAt_succ {l : Log} {n : Nat} {r : Record} (h : l.read? (n + 1) = some r) :
    e.stateAt l (n + 1) = (e.handle (e.stateAt l n) r).2.1 := by
  rw [Log.read?_succ] at h
  unfold stateAt replay
  rw [List.take_add_one, h, List.foldl_append]
  rfl

/-- What is appended behind the first records does not matter for their state. -/
theorem stateAt_appendAll {l : Log} {n : Nat} (h : n ≤ l.lastPosition) (ps : List PendingRecord) :
    e.stateAt (l.appendAll ps) n = e.stateAt l n := by
  unfold stateAt
  rw [Log.take_appendAll h]

/-- The record at a position of a partition's log. -/
def recordAt (p : Partition) (position : Nat) : Record := (p.log.read? position).getD default

end Engine

/-! ## Orders -/

namespace OrderProcess

/-- The engine of the order process with the standard handlers. -/
def engine : Engine := ⟨repository, .standard⟩

/-- An order in the given workflow instance. -/
def order (instanceKey : Key) : PendingRecord := .external .eventOccurred (value instanceKey)

/-- A partition with one order. -/
def ordered (instanceKey : Key) : Partition := (Partition.fresh 1).append (order instanceKey)

end OrderProcess

end WorkflowEngine
