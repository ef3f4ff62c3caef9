import WorkflowEngine.Key

/-! # Partition Assignment

    Which of the partitions of a cluster a node owns: all of them, the ones
    that it is configured with, or its share among several nodes.
-/

namespace WorkflowEngine

/-- The configured ownership of a node. -/
structure PartitionsConfig where
  /-- Partitions named one by one. -/
  partitionIds : List PartitionId := []
  /-- The number of nodes that share the partitions. -/
  nodeCount : Option Nat := none
  /-- The number of this node among them, from zero. -/
  currentNodeId : Option Nat := none
  deriving DecidableEq, Repr

/-- How a node picks its partitions. -/
inductive Assignment where
  /-- Every partition. -/
  | all
  /-- The given partitions, as far as the cluster has them. -/
  | explicit (ids : List PartitionId)
  /-- One contiguous share of several. -/
  | sharded (nodeCount nodeId : Nat)
  deriving DecidableEq, Repr

/-- What is logged about a share that does not exist. -/
structure ShareWarning where
  nodeId : Nat
  nodeCount : Nat
  message : String := "Misconfiguration: node id must be strictly less than node count. " ++
    "No partitions will be selected"
  deriving DecidableEq, Repr

/-- The length of chunk number `index` when `n` items are cut into `count`
    chunks: the first chunks take one more until nothing is left over. -/
def chunkLength (n count index : Nat) : Nat :=
  n / count + if index < n % count then 1 else 0

/-- Where that chunk starts. -/
def chunkStart (n count index : Nat) : Nat := index * (n / count) + min index (n % count)

/-- Chunk number `index` of a list that is cut into `count` contiguous chunks.
    There is none beyond the last chunk. -/
def chunk (items : List α) (count index : Nat) : List α :=
  if index < count then
    (items.drop (chunkStart items.length count index)).take
      (chunkLength items.length count index)
  else []

namespace Assignment

/-- The configured assignment. Partitions named one by one take precedence, and
    a share needs both of its numbers. -/
def ofConfig (c : PartitionsConfig) : Assignment :=
  if c.partitionIds.isEmpty then
    match c.nodeCount, c.currentNodeId with
    | some nodeCount, some nodeId => sharded nodeCount nodeId
    | _, _ => all
  else explicit c.partitionIds

/-- The owned ones of the partitions of a cluster, in their order, with what is
    logged about a share that does not exist. -/
def selectLogged (a : Assignment) (retrieved : List PartitionId) :
    List PartitionId × List ShareWarning :=
  match a with
  | all => (retrieved, [])
  | explicit ids => (retrieved.filter fun id => ids.contains id, [])
  | sharded nodeCount nodeId =>
    if nodeCount ≤ nodeId then ([], [{ nodeId, nodeCount }])
    else (chunk retrieved nodeCount nodeId, [])

/-- The owned ones of the partitions of a cluster, in their order. -/
def select (a : Assignment) (retrieved : List PartitionId) : List PartitionId :=
  (a.selectLogged retrieved).1

/-- What is logged while the owned partitions are picked. -/
def warnings (a : Assignment) (retrieved : List PartitionId) : List ShareWarning :=
  (a.selectLogged retrieved).2

end Assignment

end WorkflowEngine
