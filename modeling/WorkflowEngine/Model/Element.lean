import WorkflowEngine.Duration
import WorkflowEngine.Error

/-! # Elements of a Workflow

    A workflow consists of containers (the process and its sub-processes),
    the start events that the containers declare, and plain nodes. A
    container always declares at least one start event.
-/

namespace WorkflowEngine

/-- The kinds of elements. -/
inductive ElementKind where
  | process
  | subProcess
  | startEvent
  | intermediateCatchEvent
  | serviceTask
  | exclusiveGateway
  | endEvent
  deriving DecidableEq, Repr, Inhabited

namespace ElementKind

/-- All kinds. -/
def all : List ElementKind :=
  [process, subProcess, startEvent, intermediateCatchEvent, serviceTask, exclusiveGateway,
    endEvent]

/-- The name of a kind. -/
def name : ElementKind → String
  | process => "process"
  | subProcess => "sub_process"
  | startEvent => "start_event"
  | intermediateCatchEvent => "intermediate_catch_event"
  | serviceTask => "service_task"
  | exclusiveGateway => "exclusive_gateway"
  | endEvent => "end_event"

/-- The kind of a name. -/
def ofName? (s : String) : Option ElementKind := all.find? fun k => k.name == s

/-- Whether elements of the kind declare start events. -/
def isContainer : ElementKind → Bool
  | process | subProcess => true
  | _ => false

end ElementKind

/-! ## Events -/

/-- What makes an event fire. -/
inductive Trigger where
  | none
  | timer (duration : Duration)
  | message (name : String) (correlationKey : Option String)
  deriving DecidableEq, Repr

/-- An event that a workflow waits for, such as a start event. -/
structure CatchEvent where
  id : String
  trigger : Trigger
  kind : ElementKind := .startEvent
  deriving DecidableEq, Repr

namespace CatchEvent

/-- Whether the event fires at once. -/
def isNone (e : CatchEvent) : Bool := e.trigger = .none

/-- Whether the event fires after a time. -/
def isTimer (e : CatchEvent) : Bool :=
  match e.trigger with
  | .timer _ => true
  | _ => false

/-- Whether the event fires on a message. -/
def isMessage (e : CatchEvent) : Bool :=
  match e.trigger with
  | .message .. => true
  | _ => false

end CatchEvent

/-! ## Containers -/

/-- A process or sub-process with its start events. -/
structure Container where
  id : String
  kind : ElementKind
  startEvents : List CatchEvent
  /-- The kind is one that declares start events. -/
  isContainer : kind.isContainer = true
  /-- There is a start event. -/
  nonempty : startEvents ≠ []
  deriving DecidableEq

namespace Container

/-- The container of the given parts, if they make one. -/
def create (id : String) (kind : ElementKind) (startEvents : List CatchEvent) :
    Except EngineError Container :=
  if hkind : kind.isContainer = true then
    if hevents : startEvents = [] then
      .error (.invalidArgument ("container '" ++ id ++ "' has no start event"))
    else .ok ⟨id, kind, startEvents, hkind, hevents⟩
  else
    .error (.invalidArgument
      ("element '" ++ id ++ "' of kind " ++ kind.name ++ " cannot contain start events"))

/-- The start event declared first. -/
def firstStartEvent (c : Container) : CatchEvent := c.startEvents.head c.nonempty

/-- The first start event that fires at once. -/
def noneStartEvent? (c : Container) : Option CatchEvent := c.startEvents.find? (·.isNone)

/-- The start event of an id. -/
def startEvent? (c : Container) (id : String) : Option CatchEvent :=
  c.startEvents.find? fun e => e.id == id

end Container

/-! ## Elements -/

/-- Any element of a workflow. -/
inductive Element where
  | container (c : Container)
  | catchEvent (e : CatchEvent)
  /-- An element without parts, such as a task. -/
  | node (id : String) (kind : ElementKind)
  deriving DecidableEq

namespace Element

/-- The element id. -/
def id : Element → String
  | container c => c.id
  | catchEvent e => e.id
  | node id _ => id

/-- The kind of element. -/
def kind : Element → ElementKind
  | container c => c.kind
  | catchEvent e => e.kind
  | node _ kind => kind

/-- The element as a container. -/
def asContainer? : Element → Option Container
  | container c => some c
  | _ => none

/-- The element as an event. -/
def asCatchEvent? : Element → Option CatchEvent
  | catchEvent e => some e
  | _ => none

end Element

end WorkflowEngine
