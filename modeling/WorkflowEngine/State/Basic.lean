import WorkflowEngine.State.Store

/-! # The State of a Partition

    Beside the store, a partition keeps the workflow instances that a fatal
    error has stopped. Stopping is not part of any transaction.
-/

namespace WorkflowEngine

/-- The state of a partition. -/
structure PartitionState where
  store : Store := .empty
  /-- The workflow instances that are stopped. -/
  blacklist : SortedMap Key Unit := .empty
  deriving DecidableEq

namespace PartitionState

/-- Nothing tracked and nothing stopped. -/
def empty : PartitionState := {}

/-- The tokens and instances. -/
def contents (s : PartitionState) : Contents := s.store.contents

/-- Change the store. -/
def onStore (f : Store → α × Store) (s : PartitionState) : α × PartitionState :=
  let (a, store) := f s.store
  (a, { s with store })

/-- Open a transaction. -/
def begin (s : PartitionState) : PartitionState := { s with store := s.store.begin }

/-- Keep the changes of the transaction. -/
def commit (s : PartitionState) : PartitionState := { s with store := s.store.commit }

/-- Undo the changes of the transaction. -/
def rollback (s : PartitionState) : PartitionState := { s with store := s.store.rollback }

/-- Whether a workflow instance is stopped. -/
def isBlacklisted (s : PartitionState) (instanceKey : Key) : Bool :=
  s.blacklist.contains instanceKey

/-- Stop a workflow instance; an unset key stops nothing. -/
def addToBlacklist (s : PartitionState) (instanceKey : Key) : PartitionState :=
  if instanceKey = Key.unset then s
  else { s with blacklist := s.blacklist.insert instanceKey () }

@[simp] theorem addToBlacklist_store (s : PartitionState) (instanceKey : Key) :
    (s.addToBlacklist instanceKey).store = s.store := by
  unfold addToBlacklist
  split <;> rfl

/-- Stopping a workflow instance stops no other one, and an unset key none. -/
theorem isBlacklisted_addToBlacklist_iff {s : PartitionState} {instanceKey other : Key} :
    (s.addToBlacklist instanceKey).isBlacklisted other = true ↔
      s.isBlacklisted other = true ∨ other ≠ Key.unset ∧ instanceKey = other := by
  unfold addToBlacklist isBlacklisted SortedMap.contains
  by_cases hunset : instanceKey = Key.unset
  · rw [if_pos hunset]
    refine ⟨.inl, fun h => h.resolve_right ?_⟩
    rintro ⟨hset, rfl⟩
    exact hset hunset
  · rw [if_neg hunset, SortedMap.get?_insert]
    by_cases hother : other = instanceKey
    · simp [hother, hunset]
    · simp [hother, eq_comm (a := instanceKey)]

/-- Whether stopping a workflow instance changes anything. -/
def isStoppable (s : PartitionState) (instanceKey : Key) : Bool :=
  instanceKey ≠ Key.unset && !s.isBlacklisted instanceKey

/-- Whether two states hold the same, open transactions and the signs of zeros
    aside. -/
def sameAs (s t : PartitionState) : Bool :=
  s.contents.dropZeroSigns = t.contents.dropZeroSigns && s.blacklist = t.blacklist

end PartitionState

end WorkflowEngine
