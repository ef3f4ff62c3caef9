import WorkflowEngine.Cluster.Assignment
import WorkflowEngine.Cluster.Client
import WorkflowEngine.Cluster.Discovery
import WorkflowEngine.Remote.Execution

/-! # Configuration of a Node -/

namespace WorkflowEngine

/-- How a node takes part in the cluster. -/
structure ClusterConfig where
  name : String := "default"
  /-- The base address of the topology service. -/
  topologyEndpoint : Option String := none
  requestTimeout : Duration := Duration.ofMillis 5000
  /-- How long to wait before a topology request is made again. -/
  waitTime : Duration := Duration.ofMillis 1000
  /-- How often a topology request is made again. -/
  maxRetries : Nat := 60
  partitions : PartitionsConfig := {}
  deriving DecidableEq, Repr

/-- How remote commands are retried. -/
structure CommandConfig where
  /-- How often a command is tried again. -/
  maxRetries : Nat := 3
  backoff : Backoff := {}
  deriving DecidableEq

/-- How a node logs. -/
structure LoggingConfig where
  level : String := "info"
  jsonFormat : Bool := false
  deriving DecidableEq, Repr

/-- The configuration of a node. -/
structure Config where
  nodeName : String := "weft-node"
  cluster : ClusterConfig := {}
  commands : CommandConfig := {}
  logging : LoggingConfig := {}
  deriving DecidableEq

namespace ClusterConfig

/-- How the node picks its partitions. -/
def assignment (c : ClusterConfig) : Assignment := Assignment.ofConfig c.partitions

/-- The configured topology service. -/
def topologyService (c : ClusterConfig) : Except EngineError TopologyService :=
  match c.topologyEndpoint with
  | some endpoint => .ok ⟨endpoint⟩
  | none => .error (.config "cluster.topology_endpoint is not configured")

/-- The configured plan for partition discovery. -/
def queryPlan (c : ClusterConfig) : QueryPlan where
  wait := c.waitTime.millisRoundedUp
  maxRetries := c.maxRetries

end ClusterConfig

namespace CommandConfig

/-- Execute a command as configured. -/
def execute (c : CommandConfig) (description : String) (script : Nat → Attempt) : Execution :=
  Command.execute c.backoff.next c.maxRetries description script

end CommandConfig

end WorkflowEngine
