import WorkflowEngine.Model.Element
import WorkflowEngine.SortedMap

/-! # Workflows

    A workflow is built from declarations of its containers and plain nodes.
    Element ids are unique across the workflow, the start events of all
    containers included, and one container carries the process id.
-/

namespace WorkflowEngine

/-- A process definition that can be deployed. -/
structure Workflow where
  key : Key
  processId : String
  version : Nat
  elements : SortedMap String Element
  deriving DecidableEq

namespace Workflow

/-- The element of an id. -/
def element? (w : Workflow) (id : String) : Option Element := w.elements.get? id

/-- The container that carries the process id. -/
def process? (w : Workflow) : Option Container :=
  w.element? w.processId >>= Element.asContainer?

/-- The containers, by id. -/
def containers (w : Workflow) : List Container :=
  w.elements.values.filterMap Element.asContainer?

/-- The container that declares a start event. -/
def flowScopeOf? (w : Workflow) (startEventId : String) : Option Container :=
  w.containers.find? fun c => (c.startEvent? startEventId).isSome

/-- The number of elements, start events included. -/
def size (w : Workflow) : Nat := w.elements.size

/-! ## Building -/

/-- The declaration of a container. -/
structure ContainerDeclaration where
  id : String
  kind : ElementKind
  startEvents : List CatchEvent

/-- The declaration of a plain node. -/
structure NodeDeclaration where
  id : String
  kind : ElementKind

/-- What a workflow is built from. -/
structure Builder where
  /-- The key under which the workflow will be deployed. -/
  key : Key
  processId : String
  version : Nat
  /-- The containers in the order of their declaration. -/
  containers : List ContainerDeclaration := []
  /-- The plain nodes in the order of their declaration. -/
  nodes : List NodeDeclaration := []

namespace Builder

/-- Declare the process itself. -/
def process (b : Builder) (startEvents : List CatchEvent) : Builder :=
  { b with containers := b.containers ++ [⟨b.processId, .process, startEvents⟩] }

/-- Declare a sub-process. -/
def subProcess (b : Builder) (id : String) (startEvents : List CatchEvent) : Builder :=
  { b with containers := b.containers ++ [⟨id, .subProcess, startEvents⟩] }

/-- Declare a plain node. -/
def node (b : Builder) (id : String) (kind : ElementKind) : Builder :=
  { b with nodes := b.nodes ++ [⟨id, kind⟩] }

/-- Elements by id, while a workflow is built. -/
abbrev Elements := SortedMap String Element

/-- Add an element whose id is not taken. -/
def addElement (elements : Elements) (e : Element) : Except EngineError Elements :=
  if elements.contains e.id then
    .error (.invalidArgument ("duplicate element id '" ++ e.id ++ "'"))
  else .ok (elements.insert e.id e)

/-- Add a container after its start events. -/
def addContainer (elements : Elements) (d : ContainerDeclaration) :
    Except EngineError Elements := do
  let container ← Container.create d.id d.kind d.startEvents
  -- The events are added before their container.
  let elements ← container.startEvents.foldlM (fun es e => addElement es (.catchEvent e)) elements
  addElement elements (.container container)

/-- Add a plain node. -/
def addNode (elements : Elements) (d : NodeDeclaration) : Except EngineError Elements :=
  if d.kind.isContainer then
    .error (.invalidArgument
      ("element '" ++ d.id ++ "' is a " ++ d.kind.name ++
        " and must be declared with its start events"))
  else addElement elements (.node d.id d.kind)

/-- The workflow of the declarations: containers first, then plain nodes. -/
def build (b : Builder) : Except EngineError Workflow := do
  let elements ← b.containers.foldlM addContainer .empty
  let elements ← b.nodes.foldlM addNode elements
  let workflow : Workflow := ⟨b.key, b.processId, b.version, elements⟩
  if workflow.process?.isSome then .ok workflow
  else .error (.invalidArgument ("workflow '" ++ b.processId ++ "' has no process scope"))

end Builder

end Workflow

end WorkflowEngine
