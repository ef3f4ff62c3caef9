import WorkflowEngine.State.Contents

/-! # The Store

    Tokens and element instances with transactions. While a transaction is
    open, every change notes how to undo it; rolling back undoes the noted
    changes, latest first.
-/

namespace WorkflowEngine

/-- How to undo a change. -/
inductive Undo where
  /-- Track again what was tracked under a key before. -/
  | setInstance (key : Key) (previous : Option ElementInstance)
  /-- Put a consumed token back in front. -/
  | restoreOldest (scope : Key) (token : Token)
  /-- Take the last deferred token away. -/
  | dropNewest (scope : Key)
  /-- Put removed tokens back. -/
  | restoreAll (scope : Key) (tokens : List Token)
  deriving DecidableEq

namespace Contents

/-- Undo one change. -/
def undo (c : Contents) : Undo → Contents
  | .setInstance key previous => c.setInstance key previous
  | .restoreOldest scope token => c.setTokens scope (token :: c.tokensOf scope)
  | .dropNewest scope => c.setTokens scope (c.tokensOf scope).dropLast
  | .restoreAll scope tokens => c.setTokens scope tokens

end Contents

/-- Tokens and element instances, and the journal of the open transaction. -/
structure Store where
  contents : Contents := .empty
  /-- How to undo the changes of the open transaction, latest first. -/
  journal : Option (List Undo) := none
  deriving DecidableEq

namespace Store

/-- Without tokens and instances, and without a transaction. -/
def empty : Store := {}

/-! ## Transactions -/

/-- Whether a transaction is open. -/
def inTransaction (s : Store) : Bool := s.journal.isSome

/-- Open a transaction. One that is already open loses its journal. -/
def begin (s : Store) : Store := { s with journal := some [] }

/-- Close the transaction and keep its changes. -/
def commit (s : Store) : Store := { s with journal := none }

/-- Close the transaction and undo its changes. -/
def rollback (s : Store) : Store :=
  ⟨(s.journal.getD []).foldl Contents.undo s.contents, none⟩

/-- Make a change and note how to undo it. -/
def change (s : Store) (contents : Contents) (undo : Undo) : Store :=
  ⟨contents, s.journal.map (undo :: ·)⟩

/-! ## Tokens -/

/-- Let a token wait in a scope. -/
def deferToken (s : Store) (scope : Key) (token : Token) : Store :=
  s.change (s.contents.setTokens scope (s.contents.tokensOf scope ++ [token])) (.dropNewest scope)

/-- Take the oldest token of a scope. -/
def consumeToken (s : Store) (scope : Key) : Except EngineError Token × Store :=
  match s.contents.tokensOf scope with
  | [] => (.error (.noDeferredToken scope), s)
  | token :: rest =>
    (.ok token, s.change (s.contents.setTokens scope rest) (.restoreOldest scope token))

/-- Remove the tokens of a scope. -/
def removeTokens (s : Store) (scope : Key) : List Token × Store :=
  match s.contents.tokensOf scope with
  | [] => ([], s)
  | tokens => (tokens, s.change (s.contents.setTokens scope []) (.restoreAll scope tokens))

/-! ## Instances -/

/-- Track an instance under a key, in place of the one tracked before. -/
def setInstance (s : Store) (key : Key) (i : Option ElementInstance) : Store :=
  s.change (s.contents.setInstance key i) (.setInstance key (s.contents.instance? key))

/-- Track a new instance of the element of a value, within the value's scope. -/
def addInstance (s : Store) (key : Key) (value : RecordValue) (intent : Intent) :
    ElementInstance × Store :=
  let i : ElementInstance := ⟨key, value.scopeKey, value.instanceKey, value.elementId, intent⟩
  (i, s.setInstance key (some i))

/-- Note the transition of an instance. -/
def setIntent (s : Store) (key : Key) (intent : Intent) : Except EngineError Unit × Store :=
  match s.contents.instance? key with
  | none => (.error (.notFound ("element instance " ++ toString key)), s)
  | some i => (.ok (), s.setInstance key (some { i with intent }))

/-- Forget an instance and the tokens of its scope. -/
def removeInstance (s : Store) (key : Key) : Option ElementInstance × Store :=
  let s := (s.removeTokens key).2
  match s.contents.instance? key with
  | none => (none, s)
  | some i => (some i, s.setInstance key none)

/-- Forget the instances of a stack of keys, and before the rest of the stack
    all that is within each of them. Every step forgets one instance; the
    first argument bounds their number. -/
def removeNested : Nat → List Key → Store → List ElementInstance × Store
  | 0, _, s => ([], s)
  | _, [], s => ([], s)
  | n + 1, key :: stack, s =>
    match s.removeInstance key with
    | (none, s) => removeNested n stack s
    | (some i, s) =>
      let children := (s.contents.childrenOf key).map (·.key)
      -- The greatest key comes first.
      let (removed, s) := removeNested n (children.reverse ++ stack) s
      (i :: removed, s)

/-- Forget an instance and all that is within it, with the tokens of all those
    scopes. The result lists each instance before what is within it. -/
def removeTree (s : Store) (key : Key) : List ElementInstance × Store :=
  let (root, s) := s.removeInstance key
  -- The key itself may be untracked and still have instances within it.
  let children := (s.contents.childrenOf key).map (·.key)
  let (nested, s) := removeNested s.contents.instanceCount children.reverse s
  (root.toList ++ nested, s)

end Store

end WorkflowEngine
