import WorkflowEngine.Config.Basic
import WorkflowEngine.Config.Substitution
import WorkflowEngine.Toml.Fields

/-! # Reading Configurations

    A configuration is a TOML text with placeholders. Each section and each
    field has a default.
-/

namespace WorkflowEngine

/-! ## Sections -/

/-- The partitions section. -/
def PartitionsConfig.ofToml? (t : Toml) : Option PartitionsConfig := do
  match ← t.fields? ["partition_ids", "node_count", "current_node_id"]
      ["node_count", "current_node_id"] with
  | [partitionIds, nodeCount, currentNodeId] =>
    let partitionIds ← Toml.orDefault [] (Toml.asList? Toml.asCount?) partitionIds
    let nodeCount ← Toml.orNone Toml.asCount? nodeCount
    let currentNodeId ← Toml.orNone Toml.asCount? currentNodeId
    return { partitionIds, nodeCount, currentNodeId }
  | _ => none

/-- A length of time written in milliseconds. -/
def Duration.ofToml? (t : Toml) : Option Duration := t.asLong?.map Duration.ofMillis

/-- The cluster section. -/
def ClusterConfig.ofToml? (t : Toml) : Option ClusterConfig := do
  let standard : ClusterConfig := {}
  match ← t.fields?
      ["name", "topology_endpoint", "request_timeout_ms", "wait_time_ms", "max_retries",
        "partitions"]
      ["topology_endpoint"] with
  | [name, topologyEndpoint, requestTimeout, waitTime, maxRetries, partitions] =>
    let name ← Toml.orDefault standard.name Toml.asString? name
    let topologyEndpoint ← Toml.orNone Toml.asString? topologyEndpoint
    let requestTimeout ← Toml.orDefault standard.requestTimeout Duration.ofToml? requestTimeout
    let waitTime ← Toml.orDefault standard.waitTime Duration.ofToml? waitTime
    let maxRetries ← Toml.orDefault standard.maxRetries Toml.asCount? maxRetries
    let partitions ←
      Toml.orDefault standard.partitions PartitionsConfig.ofToml? partitions
    return { name, topologyEndpoint, requestTimeout, waitTime, maxRetries, partitions }
  | _ => none

/-- A backoff strategy. -/
def BackoffStrategy.ofToml? (t : Toml) : Option BackoffStrategy :=
  t.asCase? >>= BackoffStrategy.ofName?

/-- The command section. -/
def CommandConfig.ofToml? (t : Toml) : Option CommandConfig := do
  let standard : CommandConfig := {}
  match ← t.fields?
      ["max_retries", "backoff", "initial_backoff_ms", "max_backoff_ms", "multiplier"] [] with
  | [maxRetries, strategy, initial, longest, multiplier] =>
    let maxRetries ← Toml.orDefault standard.maxRetries Toml.asCount? maxRetries
    let strategy ← Toml.orDefault standard.backoff.strategy BackoffStrategy.ofToml? strategy
    let initial ← Toml.orDefault standard.backoff.initial Duration.ofToml? initial
    let longest ← Toml.orDefault standard.backoff.longest Duration.ofToml? longest
    let multiplier ← Toml.orDefault standard.backoff.multiplier Toml.asFloat? multiplier
    return { maxRetries, backoff := { strategy, initial, longest, multiplier } }
  | _ => none

/-- The logging section. -/
def LoggingConfig.ofToml? (t : Toml) : Option LoggingConfig := do
  let standard : LoggingConfig := {}
  match ← t.fields? ["level", "json_format"] [] with
  | [level, jsonFormat] =>
    let level ← Toml.orDefault standard.level Toml.asString? level
    let jsonFormat ← Toml.orDefault standard.jsonFormat Toml.asBool? jsonFormat
    return { level, jsonFormat }
  | _ => none

namespace Config

/-- The node section: the name of the node. -/
def nodeName? (t : Toml) : Option String := do
  match ← t.fields? ["name"] [] with
  | [name] => Toml.orDefault ({} : Config).nodeName Toml.asString? name
  | _ => none

/-- The observability section: the logging section. -/
def logging? (t : Toml) : Option LoggingConfig := do
  match ← t.fields? ["logging"] [] with
  | [logging] => Toml.orDefault {} LoggingConfig.ofToml? logging
  | _ => none

/-- The configuration of a document. -/
def ofToml? (t : Toml) : Option Config := do
  match ← t.fields? ["node", "cluster", "command", "observability"] [] with
  | [node, cluster, commands, observability] =>
    let nodeName ← Toml.orDefault ({} : Config).nodeName nodeName? node
    let cluster ← Toml.orDefault {} ClusterConfig.ofToml? cluster
    let commands ← Toml.orDefault {} CommandConfig.ofToml? commands
    let logging ← Toml.orDefault {} logging? observability
    return { nodeName, cluster, commands, logging }
  | _ => none

/-! ## Texts and files -/

/-- The configuration that a text writes. -/
def ofText (env : Environment) (text : String) : Except EngineError Config :=
  match (Toml.parse? (Placeholder.substitute env text)).bind fun fields =>
    ofToml? (.table fields) with
  | some config => .ok config
  | none => .error (.config "Failed to parse config")

/-- The configuration that a file holds; `none` stands for a file that cannot be read. -/
def ofFile (env : Environment) (content : Option ByteArray) : Except EngineError Config :=
  match content.bind String.fromUTF8? with
  | some text => ofText env text
  | none => .error (.config "Failed to read config file")

end Config

end WorkflowEngine
