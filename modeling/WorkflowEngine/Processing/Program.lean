import WorkflowEngine.Log
import WorkflowEngine.Model.Workflow
import WorkflowEngine.State.Basic

/-! # Handler Programs

    What a handler does with one record is a finite program over the state
    and the output of the partition: a tree whose nodes are actions and whose
    branches are the answers to them. A handler can do nothing else, so a law
    that every action keeps is kept by every handler.
-/

namespace WorkflowEngine

/-- One action of a handler. -/
inductive Action where
  /-- Look at tokens and instances. -/
  | inspect
  | deferToken (scope : Key) (token : Token)
  | consumeToken (scope : Key)
  | removeTokens (scope : Key)
  | addInstance (key : Key) (value : RecordValue) (intent : Intent)
  | setIntent (key : Key) (intent : Intent)
  | removeInstance (key : Key)
  | removeTree (key : Key)
  | blacklist (instanceKey : Key)
  | emit (intent : Intent) (value : RecordValue)
  | emitAbout (key : Key) (intent : Intent) (value : RecordValue)
  /-- Forget what has been emitted. -/
  | resetOutput

/-- The state and the output that a handler works on. -/
structure Workspace where
  state : PartitionState
  /-- What has been emitted. -/
  output : Writer
  deriving DecidableEq

namespace Workspace

/-- Change the store. -/
def onStore (f : Store → α × Store) (w : Workspace) : α × Workspace :=
  let (a, state) := w.state.onStore f
  (a, { w with state })

end Workspace

namespace Action

/-- What an action answers. -/
@[reducible] def Answer : Action → Type
  | inspect => Contents
  | consumeToken _ => Except EngineError Token
  | removeTokens _ => List Token
  | addInstance .. => ElementInstance
  | setIntent .. => Except EngineError Unit
  | removeInstance _ => Option ElementInstance
  | removeTree _ => List ElementInstance
  | deferToken .. | blacklist _ | emit .. | emitAbout .. | resetOutput => Unit

/-- Perform an action. -/
def perform : (a : Action) → Workspace → a.Answer × Workspace
  | inspect, w => (w.state.contents, w)
  | deferToken scope token, w => w.onStore fun s => ((), s.deferToken scope token)
  | consumeToken scope, w => w.onStore fun s => s.consumeToken scope
  | removeTokens scope, w => w.onStore fun s => s.removeTokens scope
  | addInstance key value intent, w => w.onStore fun s => s.addInstance key value intent
  | setIntent key intent, w => w.onStore fun s => s.setIntent key intent
  | removeInstance key, w => w.onStore fun s => s.removeInstance key
  | removeTree key, w => w.onStore fun s => s.removeTree key
  | blacklist key, w => ((), { w with state := w.state.addToBlacklist key })
  | emit intent value, w => ((), { w with output := w.output.emit intent value })
  | emitAbout key intent value, w =>
    ((), { w with output := w.output.emitAbout key intent value })
  | resetOutput, w => ((), { w with output := w.output.reset })

end Action

/-- A finite program of actions that ends with a result or an error. -/
inductive Program (α : Type) where
  | finish (result : Except EngineError α)
  /-- An action, and the program that follows its answer. -/
  | step (action : Action) (next : action.Answer → Program α)

namespace Program

variable {α β : Type}

/-- Let a second program follow the result of a first one. -/
def bind : Program α → (α → Program β) → Program β
  | finish (.ok a), f => f a
  | finish (.error e), _ => finish (.error e)
  | step action next, f => step action fun answer => (next answer).bind f

instance : Monad Program where
  pure a := finish (.ok a)
  bind := bind

/-- End with an error. -/
def fail (e : EngineError) : Program α := finish (.error e)

/-- Perform one action. -/
def perform (action : Action) : Program action.Answer :=
  step action fun answer => finish (.ok answer)

/-- Perform one action, and end with its error if it answers one. -/
def consumeToken (scope : Key) : Program Token := step (.consumeToken scope) finish

/-- Note the transition of an instance, and end with an error if it is not tracked. -/
def setIntent (key : Key) (intent : Intent) : Program Unit := step (.setIntent key intent) finish

/-- Run a program. -/
def run : Program α → Workspace → Except EngineError α × Workspace
  | finish result, w => (result, w)
  | step action next, w =>
    let (answer, w) := action.perform w
    (next answer).run w

end Program

/-! ## Handlers -/

/-- What a handler is told about the record. -/
structure StepContext where
  record : Record
  workflow : Workflow
  element : Element

namespace StepContext

/-- The record contradicts the structure of its workflow. -/
def violation (c : StepContext) (reason : String) : EngineError :=
  .invariantViolation c.record.value.instanceKey c.record.key c.record.value.elementId reason

/-- The element as a container. -/
def container (c : StepContext) : Program Container :=
  match c.element.asContainer? with
  | some container => pure container
  | none => .fail (c.violation "element is not a flow element container")

end StepContext

/-- What is done with the records of one kind of element and intent. -/
abbrev Handler := StepContext → Program Unit

end WorkflowEngine
