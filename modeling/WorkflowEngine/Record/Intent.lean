/-! # Intents

    What happens to an element of a workflow.
-/

namespace WorkflowEngine

/-- A transition in the life of an element instance. -/
inductive Intent where
  | elementActivating
  | elementActivated
  | elementCompleting
  | elementCompleted
  | elementTerminating
  | elementTerminated
  | eventOccurred
  | eventTriggering
  | eventTriggered
  | sequenceFlowTaken
  deriving DecidableEq, Repr, Inhabited

namespace Intent

/-- All intents. -/
def all : List Intent :=
  [elementActivating, elementActivated, elementCompleting, elementCompleted,
    elementTerminating, elementTerminated, eventOccurred, eventTriggering, eventTriggered,
    sequenceFlowTaken]

/-- The written form of an intent. -/
def name : Intent → String
  | elementActivating => "ELEMENT_ACTIVATING"
  | elementActivated => "ELEMENT_ACTIVATED"
  | elementCompleting => "ELEMENT_COMPLETING"
  | elementCompleted => "ELEMENT_COMPLETED"
  | elementTerminating => "ELEMENT_TERMINATING"
  | elementTerminated => "ELEMENT_TERMINATED"
  | eventOccurred => "EVENT_OCCURRED"
  | eventTriggering => "EVENT_TRIGGERING"
  | eventTriggered => "EVENT_TRIGGERED"
  | sequenceFlowTaken => "SEQUENCE_FLOW_TAKEN"

/-- The intent of a written form. -/
def ofName? (s : String) : Option Intent := all.find? fun i => i.name == s

/-- Whether the element instance is gone after the transition. -/
def isFinal : Intent → Bool
  | elementCompleted | elementTerminated => true
  | _ => false

theorem ofName?_name (i : Intent) : ofName? i.name = some i := by
  cases i <;> decide +kernel

end Intent

end WorkflowEngine
