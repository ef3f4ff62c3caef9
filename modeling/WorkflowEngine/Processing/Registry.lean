import WorkflowEngine.Processing.Handlers

/-! # Handler Registries

    A registry gives each pair of an element kind and an intent at most one
    handler.
-/

namespace WorkflowEngine

/-- The records that a handler is responsible for. -/
structure StepKind where
  kind : ElementKind
  intent : Intent
  deriving DecidableEq, Repr

/-- Handlers by what they are responsible for. -/
structure Registry where
  handlers : List (StepKind × Handler) := []

namespace Registry

/-- The registry without handlers. -/
def empty : Registry := {}

/-- The handler of a kind of step. -/
def get? (r : Registry) (step : StepKind) : Option Handler := r.handlers.lookup step

/-- Put in a handler, in place of the one of the same kind of step. -/
def register (r : Registry) (step : StepKind) (handler : Handler) : Registry :=
  ⟨(step, handler) :: r.handlers.filter fun h => h.1 ≠ step⟩

/-- Put in handlers in order. -/
def registerAll (r : Registry) (handlers : List (StepKind × Handler)) : Registry :=
  handlers.foldl (fun r h => r.register h.1 h.2) r

/-- The number of handlers. -/
def size (r : Registry) : Nat := r.handlers.length

/-- The steps of the containers of a kind. -/
def containerSteps (kind : ElementKind) : List (StepKind × Handler) :=
  [(⟨kind, .elementActivating⟩, Handler.activateElement),
    (⟨kind, .elementActivated⟩, Handler.triggerStartEvent),
    (⟨kind, .elementTerminating⟩, Handler.terminateContainer)]

/-- The steps of start events. -/
def startEventSteps : List (StepKind × Handler) :=
  [(⟨.startEvent, .eventOccurred⟩, Handler.eventOccurred),
    (⟨.startEvent, .eventTriggering⟩, Handler.triggerEvent)]

/-- The steps of containers and start events. -/
def standard : Registry :=
  empty.registerAll (containerSteps .process ++ containerSteps .subProcess ++ startEventSteps)

end Registry

end WorkflowEngine
