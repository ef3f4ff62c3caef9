import WorkflowEngine.Config.Basic
import WorkflowEngine.Processing.Engine

/-! # Nodes

    A node discovers the partitions that it owns, then processes the log of
    each of them until it is shut down.

    ### Time

    The clock of a node counts milliseconds. Between two moments nothing
    happens but what is due, so a node is described by what `Node.settle`
    makes of it when time passes.
-/

namespace WorkflowEngine

/-- What a node is doing. -/
inductive NodePhase where
  /-- It has not been started. -/
  | idle
  /-- It has been asking for the partitions since a moment. -/
  | discovering (since : Nat)
  | running (owned : List PartitionId)
  /-- It has stopped. -/
  | ended
  deriving DecidableEq, Repr

/-- A node with its means to ask for the topology. -/
structure Node (Client : Type) where
  config : Config
  client : Client
  engine : Engine
  /-- The partition id that the log of a partition carries. -/
  logId : PartitionId → PartitionId := id
  partitions : SortedMap PartitionId Partition := .empty
  clock : Nat := 0
  /-- The moment at which the node was told to stop. -/
  stoppedAt : Option Nat := none
  phase : NodePhase := .idle

/-! ## Putting a node together -/

/-- What a node is put together from. -/
structure NodeBuilder (Client : Type) where
  config : Option Config := none
  client : Option Client := none
  repository : Repository := .empty
  registry : Registry := .standard
  /-- The partition id that the log of a partition will carry. -/
  logId : PartitionId → PartitionId := id

namespace NodeBuilder

variable {Client : Type}

/-- Why a node without configuration cannot be built. -/
def missingConfig : EngineError := .config "Configuration is required"

/-- Why a node that cannot ask for the topology cannot be built. -/
def missingClient : EngineError := .config "Topology client is required"

/-- Ask the configured topology service. -/
def useService (b : NodeBuilder TopologyService) :
    Except EngineError (NodeBuilder TopologyService) :=
  match b.config with
  | some config =>
    config.cluster.topologyService.map fun service => { b with client := some service }
  | none => .error missingConfig

/-- Ask for the topology in the given way. -/
def useClient {Other : Type} (b : NodeBuilder Client) (client : Other) : NodeBuilder Other where
  config := b.config
  client := some client
  repository := b.repository
  registry := b.registry
  logId := b.logId

/-- Deploy a workflow. -/
def deploy (b : NodeBuilder Client) (w : Workflow) : Except EngineError (NodeBuilder Client) :=
  (b.repository.deploy w).map fun repository => { b with repository }

/-- The node, idle and without logs. -/
def build (b : NodeBuilder Client) : Except EngineError (Node Client) :=
  match b.config, b.client with
  | none, _ => .error missingConfig
  | some _, none => .error missingClient
  | some config, some client =>
    .ok { config, client, engine := ⟨b.repository, b.registry⟩, logId := b.logId }

end NodeBuilder

namespace Node

variable {Client : Type}

/-! ## Logs -/

/-- A partition with its log, which is empty at first. -/
def partition (n : Node Client) (id : PartitionId) : Partition :=
  (n.partitions.get? id).getD { log := { partitionId := n.logId id } }

/-- Change a partition, and keep its log from now on. -/
def onPartition (f : Partition → Partition) (n : Node Client) (id : PartitionId) : Node Client :=
  { n with partitions := n.partitions.insert id (f (n.partition id)) }

/-- Append a record from outside to the log of a partition. -/
def append (n : Node Client) (id : PartitionId) (r : PendingRecord) : Node Client :=
  n.onPartition (fun p => p.append r) id

/-! ## Life -/

/-- Begin to ask for the partitions. -/
def start (n : Node Client) : Node Client :=
  match n.phase with
  | .idle => { n with phase := .discovering n.clock }
  | _ => n

/-- Tell the node to stop. -/
def shutdown (n : Node Client) : Node Client :=
  { n with stoppedAt := n.stoppedAt.or (some n.clock) }

/-- Whether the node has stopped; `none` if it was never started. -/
def hasEnded (n : Node Client) : Option Bool :=
  match n.phase with
  | .idle => none
  | .ended => some true
  | _ => some false

/-- Process what the owned partitions hold, and then stop if told so. The limit
    bounds the records of each partition. -/
def work (n : Node Client) (limit : Nat) (owned : List PartitionId) : Node Client :=
  let n := owned.foldl (onPartition fun p => (n.engine.drain limit p).2) n
  { n with phase := if n.stoppedAt.isSome then .ended else .running owned }

/-- Take over partitions: rebuild the state of each from its log. -/
def own (n : Node Client) (owned : List PartitionId) : Node Client :=
  owned.foldl (onPartition fun p => (n.engine.recover p).2) n

end Node

namespace Node

/-- How a node asks that is told in advance what each request will bring. -/
abbrev Script := Nat → TopologyAnswer

/-- The query for the partitions that began at a moment, as far as it has come:
    unless the node was told to stop, it is cut off after the present moment. -/
def discovery (n : Node Script) (since : Nat) : QueryResult :=
  let plan := { n.config.cluster.queryPlan with cancelAt := n.stoppedAt.or (some (n.clock + 1)) }
  plan.query n.client 0 since

/-- The owned ones of the partitions that a query found. -/
def ownedOf (n : Node Client) (result : QueryResult) : List PartitionId :=
  match result.retrieved with
  | some ids => n.config.cluster.assignment.select ids
  | none => []

/-- Do all that is due. A node that finds no partitions to own stays up until it
    is told to stop. -/
def advance (n : Node Script) (limit : Nat) : Node Script :=
  match n.phase with
  | .discovering since =>
    let result := n.discovery since
    -- A query that is cut off after the present moment has not come to its end.
    if n.clock < result.endedAt then n
    else
      let owned := n.ownedOf result
      (n.own owned).work limit owned
  | .running owned => n.work limit owned
  | _ => n

/-- Do all that is due now, and then what becomes due within a time. -/
def settle (n : Node Script) (limit ms : Nat) : Node Script :=
  { n with clock := n.clock + ms }.advance limit

end Node

end WorkflowEngine
