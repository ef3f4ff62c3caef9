import WorkflowEngine.Model.Workflow

/-! # Deployed Workflows

    Workflows are deployed under their keys, each key at most once.
-/

namespace WorkflowEngine

/-- The deployed workflows by key. -/
structure Repository where
  workflows : SortedMap Key Workflow := .empty
  deriving DecidableEq

namespace Repository

/-- The repository without workflows. -/
def empty : Repository := {}

/-- The workflow deployed under a key. -/
def get? (r : Repository) (key : Key) : Option Workflow := r.workflows.get? key

/-- Deploy a workflow under its key. -/
def deploy (r : Repository) (w : Workflow) : Except EngineError Repository :=
  if r.workflows.contains w.key then
    .error (.invalidArgument ("workflow key " ++ toString w.key ++ " is already deployed"))
  else .ok ⟨r.workflows.insert w.key w⟩

/-- All deployed workflows, by key. -/
def list (r : Repository) : List Workflow := r.workflows.values

/-- The workflow of a process and version. -/
def version? (r : Repository) (processId : String) (version : Nat) : Option Workflow :=
  r.list.find? fun w => w.processId == processId && w.version == version

/-- Of two versions of a process, the greater one. -/
def newer (best : Option Workflow) (w : Workflow) : Option Workflow :=
  match best with
  | some b => if w.version < b.version then some b else some w
  | none => some w

/-- The greatest deployed version of a process. -/
def latest? (r : Repository) (processId : String) : Option Workflow :=
  (r.list.filter fun w => w.processId == processId).foldl newer none

end Repository

end WorkflowEngine
