import WorkflowEngine.Error
import WorkflowEngine.Record.Basic
import WorkflowEngine.SortedMap

/-! # Tokens and Element Instances

    A scope queues the tokens that reached it before its start event was
    chosen, oldest first. An element instance is tracked while it is alive.
    A queue that runs empty is dropped, so equal contents are written alike.
-/

namespace WorkflowEngine

/-- A token that waits in a scope until the start event of the scope is chosen. -/
structure Token where
  /-- The key of the record that deferred the token. -/
  index : Key
  /-- The value that it carries; its element is the start event to take. -/
  value : RecordValue
  deriving DecidableEq

/-- The token without the signs of the zeros that it carries. -/
def Token.dropZeroSigns (t : Token) : Token := { t with value := t.value.dropZeroSigns }

/-- A live instance of an element. -/
structure ElementInstance where
  key : Key
  parentKey : Key
  /-- The workflow instance that it belongs to. -/
  instanceKey : Key
  elementId : String
  intent : Intent
  deriving DecidableEq

/-- Tokens in the order in which they were deferred; there is at least one. -/
structure TokenQueue where
  oldest : Token
  /-- The tokens deferred since. -/
  others : List Token
  deriving DecidableEq

namespace TokenQueue

/-- The tokens, oldest first. -/
def toList (q : TokenQueue) : List Token := q.oldest :: q.others

/-- The queue of some tokens; no tokens make no queue. -/
def ofList? : List Token → Option TokenQueue
  | [] => none
  | t :: ts => some ⟨t, ts⟩

/-- The queue without the signs of the zeros that its tokens carry. -/
def dropZeroSigns (q : TokenQueue) : TokenQueue :=
  ⟨q.oldest.dropZeroSigns, q.others.map Token.dropZeroSigns⟩

end TokenQueue

/-- The tokens and element instances of a partition. -/
structure Contents where
  /-- The queues of the scopes that have tokens. -/
  queues : SortedMap Key TokenQueue := .empty
  instances : SortedMap Key ElementInstance := .empty
  deriving DecidableEq

namespace Contents

/-- Without tokens and instances. -/
def empty : Contents := {}

/-! ## Tokens -/

/-- The tokens of a scope, oldest first. -/
def tokensOf (c : Contents) (scope : Key) : List Token :=
  ((c.queues.get? scope).map TokenQueue.toList).getD []

/-- Replace the tokens of a scope. -/
def setTokens (c : Contents) (scope : Key) (tokens : List Token) : Contents :=
  { c with queues := c.queues.set scope (TokenQueue.ofList? tokens) }

/-- Whether tokens wait in a scope. -/
def hasTokens (c : Contents) (scope : Key) : Bool := c.queues.contains scope

/-- The number of tokens that wait in a scope. -/
def tokenCount (c : Contents) (scope : Key) : Nat := (c.tokensOf scope).length

theorem hasTokens_iff {c : Contents} {scope : Key} :
    c.hasTokens scope = true ↔ c.tokensOf scope ≠ [] := by
  unfold hasTokens SortedMap.contains tokensOf
  cases c.queues.get? scope with
  | none => simp
  | some q => simp [TokenQueue.toList]

@[simp] theorem tokensOf_setTokens (c : Contents) (scope other : Key) (tokens : List Token) :
    (c.setTokens scope tokens).tokensOf other =
      if other = scope then tokens else c.tokensOf other := by
  simp only [tokensOf, setTokens, SortedMap.get?_set]
  split
  · cases tokens <;> rfl
  · rfl

@[simp] theorem setTokens_tokensOf (c : Contents) (scope : Key) :
    c.setTokens scope (c.tokensOf scope) = c := by
  have : c.queues.set scope (TokenQueue.ofList? (c.tokensOf scope)) = c.queues := by
    apply SortedMap.ext_get?
    intro k
    rw [SortedMap.get?_set]
    split
    -- No queue reads as no tokens, and no tokens make no queue.
    · subst k
      simp only [tokensOf]
      cases c.queues.get? scope <;> rfl
    · rfl
  simp only [setTokens, this]

/-! ## Instances -/

/-- The instance tracked under a key. -/
def instance? (c : Contents) (key : Key) : Option ElementInstance := c.instances.get? key

/-- Replace what is tracked under a key. -/
def setInstance (c : Contents) (key : Key) (i : Option ElementInstance) : Contents :=
  { c with instances := c.instances.set key i }

/-- The instances directly within a scope, by key. -/
def childrenOf (c : Contents) (parentKey : Key) : List ElementInstance :=
  c.instances.values.filter fun i => i.parentKey == parentKey

/-- The number of instances. -/
def instanceCount (c : Contents) : Nat := c.instances.size

/-! ## Comparison -/

/-- The contents without the signs of the zeros that their tokens carry. -/
def dropZeroSigns (c : Contents) : Contents :=
  { c with queues := c.queues.mapValues TokenQueue.dropZeroSigns }

end Contents

end WorkflowEngine
