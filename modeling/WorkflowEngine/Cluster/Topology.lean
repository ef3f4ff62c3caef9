import WorkflowEngine.Json.Fields
import WorkflowEngine.Key
import WorkflowEngine.Number.Word
import WorkflowEngine.SortedMap

/-! # Cluster Topology

    What the cluster tells about itself: how many partitions there are, and
    which broker plays which role for which of them.
-/

namespace WorkflowEngine

/-- What a broker does for a partition. -/
inductive PartitionRole where
  | leader
  | follower
  deriving DecidableEq, Repr

/-- A partition as one broker sees it. -/
structure PartitionInfo where
  partitionId : PartitionId
  role : PartitionRole
  deriving DecidableEq, Repr

/-- A broker with its partitions. -/
structure Broker where
  nodeId : Nat
  address : String
  partitions : List PartitionInfo := []
  deriving DecidableEq, Repr

/-- The topology of a cluster. -/
structure Topology where
  clusterSize : Nat := 0
  partitionsCount : Nat
  replicationFactor : Nat := 0
  brokers : List Broker := []
  deriving DecidableEq, Repr

namespace Topology

/-- The partitions, numbered from one. -/
def partitionIds (t : Topology) : List PartitionId := List.range' 1 t.partitionsCount

/-- The leading broker of each partition that has one; of several the last. -/
def leaders (t : Topology) : SortedMap PartitionId Nat :=
  SortedMap.ofList <| t.brokers.flatMap fun broker =>
    (broker.partitions.filter fun p => p.role = .leader).map fun p =>
      (p.partitionId, broker.nodeId)

end Topology

/-! ## JSON -/

namespace PartitionRole

/-- The name of a role. -/
def name : PartitionRole → String
  | leader => "LEADER"
  | follower => "FOLLOWER"

/-- The role of a name. -/
def ofName? (s : String) : Option PartitionRole :=
  [leader, follower].find? fun r => r.name == s

end PartitionRole

/-- The unsigned 32-bit number that a document is. -/
def Document.asCount? (d : Document) : Option Nat := d.asNat? words32

namespace PartitionInfo

/-- The document of a partition. -/
def toDocument (p : PartitionInfo) : Document :=
  .object [("partitionId", .integer p.partitionId), ("role", .text p.role.name)]

/-- The partition of a document. -/
def ofDocument? (d : Document) : Option PartitionInfo := do
  match ← d.fields? ["partitionId", "role"] with
  | [some partitionId, some role] =>
    let partitionId ← partitionId.asCount?
    let role ← role.asCase? >>= PartitionRole.ofName?
    return { partitionId, role }
  | _ => none

end PartitionInfo

namespace Broker

/-- The document of a broker. -/
def toDocument (b : Broker) : Document :=
  .object
    [("nodeId", .integer b.nodeId), ("address", .text b.address),
      ("partitions", .array (b.partitions.map PartitionInfo.toDocument))]

/-- The broker of a document. -/
def ofDocument? (d : Document) : Option Broker := do
  match ← d.fields? ["nodeId", "address", "partitions"] with
  | [some nodeId, some address, partitions] =>
    let nodeId ← nodeId.asCount?
    let address ← address.asText?
    let partitions ←
      Document.orDefault [] (Document.asList? PartitionInfo.ofDocument?) partitions
    return { nodeId, address, partitions }
  | _ => none

end Broker

namespace Topology

/-- The document of a topology. -/
def toDocument (t : Topology) : Document :=
  .object
    [("clusterSize", .integer t.clusterSize), ("partitionsCount", .integer t.partitionsCount),
      ("replicationFactor", .integer t.replicationFactor),
      ("brokers", .array (t.brokers.map Broker.toDocument))]

/-- The topology of a document. -/
def ofDocument? (d : Document) : Option Topology := do
  match ← d.fields? ["clusterSize", "partitionsCount", "replicationFactor", "brokers"] with
  | [clusterSize, some partitionsCount, replicationFactor, brokers] =>
    let clusterSize ← Document.orDefault 0 Document.asCount? clusterSize
    let partitionsCount ← partitionsCount.asCount?
    let replicationFactor ← Document.orDefault 0 Document.asCount? replicationFactor
    let brokers ← Document.orDefault [] (Document.asList? Broker.ofDocument?) brokers
    return { clusterSize, partitionsCount, replicationFactor, brokers }
  | _ => none

end Topology

end WorkflowEngine
