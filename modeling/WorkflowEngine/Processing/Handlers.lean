import WorkflowEngine.Processing.Program

/-! # Steps of Containers and Start Events

    The life of a scope: an event occurs and defers a token, the scope is
    activated and tracked, its start event is chosen and triggered, and at
    any time the scope may be terminated.

    ### How a scope finds its start event

    If the start event declared first fires at once, it is taken. Otherwise
    the scope was entered through an event, and the oldest token of the
    workflow instance names the start event.
-/

namespace WorkflowEngine

namespace Handler

open Program

/-- The element that an activated container starts with. -/
def startElement (c : StepContext) (container : Container) (contents : Contents) :
    Program String :=
  let first := container.firstStartEvent
  let scope := c.record.value.instanceKey
  if first.isNone then pure first.id
  else if contents.hasTokens scope then do
    let token ← consumeToken scope
    pure token.value.elementId
  else
    fail (c.violation "scope has no none start event and no deferred token to start from")

/-- Trigger the start event of an activated container. A container that is no
    longer tracked is not started. -/
def triggerStartEvent : Handler := fun c => do
  let container ← c.container
  let contents ← perform .inspect
  if (contents.instance? c.record.key).isNone then pure ()
  else
    let elementId ← startElement c container contents
    perform (.emit .eventTriggering
      { c.record.value with elementId, scopeKey := c.record.key })

/-- Track a container that is activated. Without a workflow instance it starts
    one under its own key. -/
def activateElement : Handler := fun c => do
  let value := c.record.value.withInstance c.record.key
  let _ ← perform (.addInstance c.record.key value .elementActivated)
  perform (.emitAbout c.record.key .elementActivated value)

/-- Defer a token for a start event that occurred, and activate its container. -/
def eventOccurred : Handler := fun c =>
  match c.workflow.flowScopeOf? c.record.value.elementId with
  | none => fail (c.violation "start event has no enclosing scope")
  | some scope => do
    let value := c.record.value.withInstance c.record.key
    let _ ← perform (.deferToken value.instanceKey ⟨c.record.key, value⟩)
    perform (.emit .elementActivating { value with elementId := scope.id })

/-- Acknowledge that a start event is triggered. -/
def triggerEvent : Handler := fun c =>
  perform (.emitAbout c.record.key .eventTriggered c.record.value)

/-- Terminate a container with all that is within it. At the top level the
    tokens that wait in the workflow instance go with it. -/
def terminateContainer : Handler := fun c => do
  let _ ← perform (.removeTree c.record.key)
  if c.record.value.hasScope then pure ()
  else
    let _ ← perform (.removeTokens c.record.value.instanceKey)
  perform (.emitAbout c.record.key .elementTerminated c.record.value)

end Handler

end WorkflowEngine
