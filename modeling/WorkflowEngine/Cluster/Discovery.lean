import WorkflowEngine.Cluster.Assignment
import WorkflowEngine.Cluster.Topology

/-! # Partition Discovery

    A node asks the cluster for its topology until the answer counts at least
    one partition, waiting before each further attempt, and gives up after a
    number of retries or when it is cancelled. What it owns then is kept as a
    snapshot, which only a success replaces.

    Time is counted in milliseconds. An attempt that ends at the very moment
    of a cancellation still counts.
-/

namespace WorkflowEngine

/-- The answer to a topology request. -/
structure TopologyAnswer where
  /-- The number of partitions, or nothing if the request fails. -/
  partitionsCount : Option Nat
  latency : Nat := 0
  deriving DecidableEq, Repr

namespace TopologyAnswer

/-- The partitions that the answer makes known, unless there are none. -/
def partitionIds? (a : TopologyAnswer) : Option (List PartitionId) :=
  match a.partitionsCount with
  | some count =>
    if 0 < count then some ({ partitionsCount := count : Topology }).partitionIds else none
  | none => none

end TopologyAnswer

/-- When and how often to ask. -/
structure QueryPlan where
  /-- The time to wait before each retry. -/
  wait : Nat
  maxRetries : Nat
  cancelAt : Option Nat := none
  deriving DecidableEq, Repr

namespace QueryPlan

/-- Whether the query is cancelled before the given moment. -/
def cancelledBefore (p : QueryPlan) (moment : Nat) : Bool :=
  match p.cancelAt with
  | some c => c < moment
  | none => false

/-- Whether the query is cancelled by the given moment. -/
def cancelledBy (p : QueryPlan) (moment : Nat) : Bool := p.cancelledBefore (moment + 1)

end QueryPlan

/-- The end of a query. -/
structure QueryResult where
  /-- The partitions of the cluster, or nothing if they stayed unknown. -/
  retrieved : Option (List PartitionId)
  /-- The number of requests made by then, earlier queries included. -/
  requests : Nat
  endedAt : Nat
  deriving DecidableEq, Repr

namespace QueryPlan

/-- Make a request at the given moment and, while it fails and retries are left,
    another one after waiting. Request number `n`, from zero, is answered by
    `answers n`. -/
def attempt (p : QueryPlan) (answers : Nat → TopologyAnswer) (retriesLeft requests clock : Nat) :
    QueryResult :=
  let answer := answers requests
  let answeredAt := clock + answer.latency
  -- A cancellation cuts the request off, or else the wait after it.
  if p.cancelledBefore answeredAt then ⟨none, requests + 1, max clock (p.cancelAt.getD 0)⟩
  else
    match answer.partitionIds? with
    | some ids => ⟨some ids, requests + 1, answeredAt⟩
    | none =>
      match retriesLeft with
      | 0 => ⟨none, requests + 1, answeredAt⟩
      | retriesLeft + 1 =>
        let next := answeredAt + p.wait
        if p.cancelledBefore next then
          ⟨none, requests + 1, max answeredAt (p.cancelAt.getD 0)⟩
        else p.attempt answers retriesLeft (requests + 1) next

/-- Ask until the partitions are known. A query that is cancelled from the start
    makes no request. -/
def query (p : QueryPlan) (answers : Nat → TopologyAnswer) (requests clock : Nat) : QueryResult :=
  if p.cancelledBy clock then ⟨none, requests, clock⟩
  else p.attempt answers p.maxRetries requests clock

end QueryPlan

/-! ## The snapshot -/

/-- What a node knows about its partitions. -/
structure Holder where
  assignment : Assignment
  /-- The partitions that it owns; empty while they are not known. -/
  owned : List PartitionId := []
  requests : Nat := 0
  clock : Nat := 0
  /-- How often the snapshot has been replaced. -/
  replacements : Nat := 0
  deriving DecidableEq

namespace Holder

/-- Take note of how a query ended, and replace the snapshot if it found the
    partitions. -/
def settle (h : Holder) (result : QueryResult) : List PartitionId × Holder :=
  let h := { h with requests := result.requests, clock := result.endedAt }
  match result.retrieved with
  | some ids =>
    let owned := h.assignment.select ids
    (owned, { h with owned, replacements := h.replacements + 1 })
  | none => ([], h)

/-- Ask the cluster, and replace the snapshot if it answers. -/
def refresh (h : Holder) (p : QueryPlan) (answers : Nat → TopologyAnswer) :
    List PartitionId × Holder :=
  h.settle (p.query answers h.requests h.clock)

/-- The owned partitions: the snapshot if there is one, else what the cluster
    answers. -/
def resolve (h : Holder) (p : QueryPlan) (answers : Nat → TopologyAnswer) :
    List PartitionId × Holder :=
  if h.owned.isEmpty then h.refresh p answers else (h.owned, h)

end Holder

end WorkflowEngine
