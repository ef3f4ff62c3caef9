import WorkflowEngine.Proofs.Sweeps

/-! # Queues as Plain Lists

    A history is a sequence of operations on the empty state: transactions are
    opened, kept and undone, and actions are performed. Beside the states that it
    goes through, the queues are kept once more as plain lists under their scopes
    (`Queues`). There a list may be empty, and nothing but the operations and the
    undo steps themselves drops one.

    ### Main statements

    `Queues.shows_after`: the lists never differ from the state, so after no
    history a scope has an empty one.

    `PartitionState.rollback_restores`: whatever actions were performed since a
    transaction was opened, undoing it restores the tokens, the instances and the
    lists of that moment.
-/

namespace WorkflowEngine

/-! ## Histories as sequences of operations -/

/-- What can be done to a state. -/
inductive Operation where
  /-- Open a transaction. -/
  | begin
  /-- Keep the open transaction. -/
  | commit
  /-- Undo the open transaction. -/
  | rollback
  /-- Perform an action. -/
  | perform (a : Action)

namespace PartitionState

variable {s : PartitionState}

/-- Do one operation. -/
def operate (s : PartitionState) : Operation → PartitionState
  | .begin => s.begin
  | .commit => s.commit
  | .rollback => s.rollback
  | .perform a => s.act a

/-- Do operations in order. -/
def operateAll (s : PartitionState) (ops : List Operation) : PartitionState := ops.foldl operate s

theorem operateAll_append (s : PartitionState) (ops ops' : List Operation) :
    s.operateAll (ops ++ ops') = (s.operateAll ops).operateAll ops' :=
  List.foldl_append

/-- A transaction in which actions are performed, and that is undone. -/
theorem operateAll_undone (s : PartitionState) (actions : List Action) :
    s.operateAll (.begin :: actions.map .perform ++ [.rollback]) =
      (s.begin.actAll actions).rollback := by
  have hactions : s.begin.operateAll (actions.map .perform) = s.begin.actAll actions :=
    List.foldl_map
  rw [operateAll_append, ← hactions]
  rfl

theorem Formed.operate (h : s.Formed) (op : Operation) : (s.operate op).Formed := by
  cases op with
  | begin => exact h.begin
  | commit => exact h.commit
  | rollback => exact h.rollback
  | perform a => exact h.act a

theorem Formed.operateAll (h : s.Formed) (ops : List Operation) : (s.operateAll ops).Formed := by
  induction ops generalizing s with
  | nil => exact h
  | cons op ops ih => exact ih (h.operate op)

/-- Keep an account beside the states that operations lead through. -/
def accountAll {α : Type} (note : PartitionState → α → Operation → α) :
    PartitionState → α → List Operation → α
  | _, account, [] => account
  | s, account, op :: ops => accountAll note (s.operate op) (note s account op) ops

/-- What every entry keeps, the account keeps. -/
theorem Formed.accountAll {α : Type} {note : PartitionState → α → Operation → α}
    (Agrees : PartitionState → α → Prop)
    (hstep : ∀ s account op, s.Formed → Agrees s account →
      Agrees (s.operate op) (note s account op))
    (h : s.Formed) {account : α} (hagrees : Agrees s account) (ops : List Operation) :
    Agrees (s.operateAll ops) (PartitionState.accountAll note s account ops) := by
  induction ops generalizing s account with
  | nil => exact hagrees
  | cons op ops ih => exact ih (h.operate op) (hstep s account op h hagrees)

end PartitionState

/-! ## What an action does to the tokens of a scope -/

/-- What may happen to the tokens of a scope. -/
inductive Movement where
  | deferred (t : Token)
  | consumed (t : Token)
  | cleared
  deriving DecidableEq

/-- What a movement leaves of the tokens of a scope: a token is deferred behind the
    others, the oldest one is consumed, and clearing leaves none. -/
def Movement.leaves : Option Movement → List Token → List Token
  | none, tokens => tokens
  | some (deferred t), tokens => tokens ++ [t]
  | some (consumed _), tokens => tokens.tail
  | some cleared, _ => []

/-- What an action does to the tokens of a scope, if anything. A scope is cleared
    when its tokens are removed or its instance is, alone or with the scope that
    it lies in. -/
def Action.movement? (s : PartitionState) (scope : Key) : Action → Option Movement
  | deferToken k t => if scope = k then some (.deferred t) else none
  | consumeToken k => if scope = k then (s.store.consumeToken k).1.toOption.map .consumed else none
  | removeTokens k | removeInstance k => if scope = k then some .cleared else none
  | removeTree k =>
    if scope = k ∨ scope ∈ Store.keysOf (s.store.removeTree k).1 then some .cleared else none
  | _ => none

namespace Store

variable {s : Store} {key scope : Key}

/-- Without tokens none is consumed, and nothing changes. -/
theorem consumeToken_of_nil (h : s.contents.tokensOf key = []) :
    s.consumeToken key = (.error (.noDeferredToken key), s) := by
  unfold consumeToken
  rw [h]

/-- The oldest token is consumed, and the others stay. -/
theorem consumeToken_of_cons {t : Token} {ts : List Token}
    (h : s.contents.tokensOf key = t :: ts) :
    (s.consumeToken key).1 = .ok t ∧
      (s.consumeToken key).2.contents = s.contents.setTokens key ts := by
  unfold consumeToken
  rw [h]
  exact ⟨rfl, rfl⟩

theorem consumeToken_ok_iff :
    (∃ t, (s.consumeToken key).1 = .ok t) ↔ s.contents.tokensOf key ≠ [] := by
  cases htokens : s.contents.tokensOf key with
  | nil => simp [consumeToken_of_nil htokens]
  | cons t ts => simp [(consumeToken_of_cons htokens).1]

theorem consumeToken_of_error {error : EngineError} (h : (s.consumeToken key).1 = .error error) :
    (s.consumeToken key).2 = s := by
  cases htokens : s.contents.tokensOf key with
  | nil => rw [consumeToken_of_nil htokens]
  | cons t ts =>
    rw [(consumeToken_of_cons htokens).1] at h
    cases h

theorem tokensOf_consumeToken (s : Store) (key scope : Key) :
    (s.consumeToken key).2.contents.tokensOf scope =
      if scope = key then (s.contents.tokensOf scope).tail else s.contents.tokensOf scope := by
  by_cases hscope : scope = key
  · subst hscope
    rw [if_pos rfl]
    cases htokens : s.contents.tokensOf scope with
    | nil =>
      rw [consumeToken_of_nil htokens]
      exact htokens
    | cons t ts =>
      rw [(consumeToken_of_cons htokens).2, Contents.tokensOf_setTokens, if_pos rfl]
      rfl
  · rw [if_neg hscope]
    unfold consumeToken
    split
    · rfl
    · exact (Contents.tokensOf_setTokens s.contents key scope _).trans (if_neg hscope)

@[simp] theorem tokensOf_setIntent (s : Store) (key : Key) (intent : Intent) (scope : Key) :
    (s.setIntent key intent).2.contents.tokensOf scope = s.contents.tokensOf scope := by
  unfold setIntent
  split <;> rfl

theorem tokensOf_removeTree (hs : s.contents.Keyed) (key scope : Key) :
    (s.removeTree key).2.contents.tokensOf scope =
      if scope = key ∨ scope ∈ keysOf (s.removeTree key).1 then []
      else s.contents.tokensOf scope := by
  rw [(sweeps_removeTree hs key).tokensOf_eq hs]
  simp only [List.mem_singleton]

end Store

namespace PartitionState

variable {s : PartitionState}

/-- A token was consumed from a scope only if it was the oldest there. -/
theorem head?_of_consumed {a : Action} {scope : Key} {t : Token}
    (h : a.movement? s scope = some (.consumed t)) :
    (s.contents.tokensOf scope).head? = some t := by
  cases a with
  | consumeToken k =>
    simp only [Action.movement?] at h
    split at h
    · rename_i hscope
      subst hscope
      cases htokens : s.contents.tokensOf scope with
      | nil =>
        rw [Store.consumeToken_of_nil htokens] at h
        cases h
      | cons u us =>
        rw [(Store.consumeToken_of_cons htokens).1] at h
        cases h
        rfl
    · cases h
  | deferToken k _ | removeTokens k | removeInstance k | removeTree k =>
    simp only [Action.movement?] at h
    split at h <;> cases h
  | _ => cases h

/-- **An action leaves the tokens of a scope that its movement leaves.** -/
theorem tokensOf_act (hs : s.contents.Keyed) (a : Action) (scope : Key) :
    (s.act a).contents.tokensOf scope =
      Movement.leaves (a.movement? s scope) (s.contents.tokensOf scope) := by
  cases a with
  | deferToken k t =>
    refine (Contents.tokensOf_setTokens s.contents k scope _).trans ?_
    simp only [Action.movement?]
    split
    · rename_i hscope
      rw [hscope]
      rfl
    · rfl
  | consumeToken k =>
    refine (s.store.tokensOf_consumeToken k scope).trans ?_
    simp only [Action.movement?]
    split
    · rename_i hscope
      subst hscope
      cases htokens : s.contents.tokensOf scope with
      | nil =>
        rw [Store.consumeToken_of_nil htokens]
        exact congrArg List.tail htokens
      | cons t ts =>
        rw [(Store.consumeToken_of_cons htokens).1]
        exact congrArg List.tail htokens
    · rfl
  | removeTokens k =>
    show (s.store.removeTokens k).2.contents.tokensOf scope = _
    rw [Store.removeTokens_contents, Contents.tokensOf_setTokens]
    simp only [Action.movement?]
    split <;> rfl
  | removeInstance k =>
    refine (s.store.tokensOf_removeInstance k scope).trans ?_
    simp only [Action.movement?]
    split <;> rfl
  | removeTree k =>
    refine (Store.tokensOf_removeTree hs k scope).trans ?_
    simp only [Action.movement?]
    split <;> rfl
  | setIntent k intent => exact s.store.tokensOf_setIntent k intent scope
  | blacklist k =>
    show (s.addToBlacklist k).store.contents.tokensOf scope = _
    rw [addToBlacklist_store]
    rfl
  | _ => rfl

end PartitionState

/-! ## The lists

    Taking a token out looks whether the list has run empty, and so does taking a
    deferred one back. Putting removed tokens back stores them as they are. -/

/-- Lists of tokens under their scopes, oldest first. -/
abbrev Queues := SortedMap Key (List Token)

namespace Queues

/-- The tokens of a scope; a scope without a list has none. -/
def tokensOf (q : Queues) (scope : Key) : List Token := (q.get? scope).getD []

/-- Store what is left of a list, or drop the scope when nothing is. -/
def keep (q : Queues) (scope : Key) : List Token → Queues
  | [] => q.erase scope
  | tokens => q.insert scope tokens

/-- Put a token behind those of its scope. -/
def pushBack (q : Queues) (scope : Key) (t : Token) : Queues :=
  q.insert scope (q.tokensOf scope ++ [t])

/-- Take the oldest token of a scope away. A list that was empty already stays. -/
def popFront (q : Queues) (scope : Key) : Queues :=
  match q.get? scope with
  | some (_ :: rest) => q.keep scope rest
  | _ => q

/-- Undo one change. -/
def undo (q : Queues) : Undo → Queues
  | .setInstance _ _ => q
  | .restoreOldest scope t => q.insert scope (t :: q.tokensOf scope)
  | .dropNewest scope =>
    match q.get? scope with
    | some tokens => q.keep scope tokens.dropLast
    | none => q
  | .restoreAll scope tokens => q.insert scope tokens

/-- What an operation does to the lists, with the undo steps that the state has
    noted and the instances that it forgets. -/
def note (s : PartitionState) (q : Queues) : Operation → Queues
  | .rollback => (s.store.journal.getD []).foldl undo q
  | .perform (.deferToken scope t) => q.pushBack scope t
  | .perform (.consumeToken scope) => q.popFront scope
  | .perform (.removeTokens scope) | .perform (.removeInstance scope) => q.erase scope
  | .perform (.removeTree key) =>
    (key :: Store.keysOf (s.store.removeTree key).1).foldl SortedMap.erase q
  | _ => q

/-- The lists after a history that starts without any. -/
def after (ops : List Operation) : Queues := PartitionState.accountAll note .empty .empty ops

/-- A scope has a list exactly if the contents hold tokens for it, and it is the
    list of those. -/
def Shows (q : Queues) (c : Contents) : Prop :=
  ∀ scope, q.get? scope = if c.tokensOf scope = [] then none else some (c.tokensOf scope)

variable {q : Queues} {c c' : Contents} {scope : Key}

namespace Shows

theorem tokensOf_eq (h : q.Shows c) (scope : Key) : q.tokensOf scope = c.tokensOf scope := by
  unfold Queues.tokensOf
  rw [h scope]
  split
  · rename_i hnil
    exact hnil.symm
  · rfl

/-- Contents are shown by one map of lists only. -/
theorem eq {q' : Queues} (h : q.Shows c) (h' : q'.Shows c) : q' = q :=
  SortedMap.ext_get? fun scope => (h' scope).trans (h scope).symm

/-- No scope has an empty list. -/
theorem ne_nil (h : q.Shows c) (scope : Key) : q.get? scope ≠ some [] := by
  rw [h scope]
  split
  · exact Option.some_ne_none _ |>.symm
  · rename_i hsome
    exact fun hnil => hsome (Option.some.inj hnil)

theorem contains_iff (h : q.Shows c) : q.contains scope = true ↔ c.tokensOf scope ≠ [] := by
  unfold SortedMap.contains
  rw [h scope]
  by_cases hnil : c.tokensOf scope = [] <;> simp [hnil]

/-- Contents with the same tokens are shown by the same lists. -/
theorem congr (h : q.Shows c) (hc : ∀ scope, c'.tokensOf scope = c.tokensOf scope) :
    q.Shows c' := by
  intro scope
  rw [hc scope]
  exact h scope

theorem insert (h : q.Shows c) {tokens : List Token} (hsome : tokens ≠ []) (scope : Key) :
    Shows (q.insert scope tokens) (c.setTokens scope tokens) := by
  intro k
  rw [SortedMap.get?_insert, Contents.tokensOf_setTokens]
  by_cases hk : k = scope
  · simp only [if_pos hk, if_neg hsome]
  · simp only [if_neg hk]
    exact h k

theorem erase (h : q.Shows c) (scope : Key) :
    Shows (SortedMap.erase q scope) (c.setTokens scope []) := by
  intro k
  rw [SortedMap.get?_erase, Contents.tokensOf_setTokens]
  by_cases hk : k = scope
  · simp only [if_pos hk, if_true]
  · simp only [if_neg hk]
    exact h k

theorem keep (h : q.Shows c) (scope : Key) (tokens : List Token) :
    (q.keep scope tokens).Shows (c.setTokens scope tokens) := by
  cases tokens with
  | nil => exact h.erase scope
  | cons t ts => exact h.insert (List.cons_ne_nil t ts) scope

theorem pushBack (h : q.Shows c) (scope : Key) (t : Token) :
    (q.pushBack scope t).Shows (c.setTokens scope (c.tokensOf scope ++ [t])) := by
  unfold Queues.pushBack
  rw [h.tokensOf_eq]
  exact h.insert (by simp) scope

theorem popFront (h : q.Shows c) (scope : Key) :
    (q.popFront scope).Shows (c.setTokens scope (c.tokensOf scope).tail) := by
  unfold Queues.popFront
  rw [h scope]
  cases htokens : c.tokensOf scope with
  | nil =>
    have hsame : c.setTokens scope [].tail = c := by
      rw [List.tail_nil, ← htokens, Contents.setTokens_tokensOf]
    rw [hsame]
    exact h
  | cons t ts => exact h.keep scope ts

/-- An undo step leaves no empty list behind, if it puts no empty list back. -/
theorem undo (h : q.Shows c) {u : Undo} (hu : ∀ scope, u ≠ .restoreAll scope []) :
    (q.undo u).Shows (c.undo u) := by
  cases u with
  | setInstance key previous => exact h
  | restoreOldest scope t =>
    show Shows (q.insert scope (t :: q.tokensOf scope)) (c.setTokens scope (t :: c.tokensOf scope))
    rw [h.tokensOf_eq]
    exact h.insert (List.cons_ne_nil t _) scope
  | dropNewest scope =>
    show Shows (match q.get? scope with
      | some tokens => q.keep scope tokens.dropLast
      | none => q) (c.setTokens scope (c.tokensOf scope).dropLast)
    rw [h scope]
    cases htokens : c.tokensOf scope with
    | nil =>
      have hsame : c.setTokens scope [].dropLast = c := by
        rw [List.dropLast_nil, ← htokens, Contents.setTokens_tokensOf]
      rw [hsame]
      exact h
    | cons t ts => exact h.keep scope (t :: ts).dropLast
  | restoreAll scope tokens =>
    refine h.insert ?_ scope
    rintro rfl
    exact hu scope rfl

theorem undoAll (h : q.Shows c) {us : List Undo} (hus : ∀ scope, .restoreAll scope [] ∉ us) :
    Shows (us.foldl Queues.undo q) (us.foldl Contents.undo c) := by
  induction us generalizing q c with
  | nil => exact h
  | cons u us ih =>
    refine ih (h.undo fun scope hu => ?_) fun scope hmem => hus scope (List.mem_cons_of_mem u hmem)
    exact hus scope (hu ▸ List.mem_cons_self)

end Shows

/-- Dropping lists one after the other. -/
theorem get?_eraseAll (keys : List Key) (q : Queues) (scope : Key) :
    (keys.foldl SortedMap.erase q).get? scope = if scope ∈ keys then none else q.get? scope := by
  induction keys generalizing q with
  | nil => rfl
  | cons key keys ih =>
    rw [List.foldl_cons, ih, SortedMap.get?_erase]
    by_cases hscope : scope = key <;> simp [hscope]

end Queues

/-! ## The journal puts no empty list back -/

namespace Store

variable {s : Store}

/-- No undo step of the open transaction puts an empty list back. -/
def Filled (s : Store) : Prop :=
  ∀ us, s.journal = some us → ∀ scope, Undo.restoreAll scope [] ∉ us

namespace Filled

theorem change (h : s.Filled) (c : Contents) {u : Undo}
    (hu : ∀ scope, u ≠ .restoreAll scope []) : (s.change c u).Filled := by
  intro us hus scope hmem
  obtain ⟨vs, hvs, rfl⟩ := Option.map_eq_some_iff.mp hus
  rcases List.mem_cons.mp hmem with hhead | hmem
  · exact hu scope hhead.symm
  · exact h vs hvs scope hmem

theorem setInstance (h : s.Filled) (key : Key) (i : Option ElementInstance) :
    (s.setInstance key i).Filled :=
  h.change _ fun _ hu => by cases hu

/-- Tokens are noted only if some were removed. -/
theorem removeTokens (h : s.Filled) (scope : Key) : (s.removeTokens scope).2.Filled := by
  unfold Store.removeTokens
  split
  · exact h
  · rename_i hsome
    refine h.change _ fun k hu => ?_
    exact hsome (Undo.restoreAll.inj hu).2

theorem consumeToken (h : s.Filled) (scope : Key) : (s.consumeToken scope).2.Filled := by
  unfold Store.consumeToken
  split
  · exact h
  · exact h.change _ fun _ hu => by cases hu

theorem setIntent (h : s.Filled) (key : Key) (intent : Intent) :
    (s.setIntent key intent).2.Filled := by
  unfold Store.setIntent
  split
  · exact h
  · exact h.setInstance _ _

theorem removeInstance (h : s.Filled) (key : Key) : (s.removeInstance key).2.Filled := by
  unfold Store.removeInstance
  simp only
  split
  · exact h.removeTokens key
  · exact (h.removeTokens key).setInstance key none

/-- The loop removes one instance at a time. -/
theorem sweeps {stack : List Key} {removed : List ElementInstance} {t : Store}
    (hrun : Sweeps stack s removed t) (h : s.Filled) : t.Filled := by
  induction hrun with
  | done => exact h
  | step _ ih => exact ih (h.removeInstance _)

theorem removeTree (h : s.Filled) (hs : s.contents.Keyed) (key : Key) :
    (s.removeTree key).2.Filled :=
  sweeps (sweeps_removeTree hs key) h

theorem act {s : PartitionState} (h : s.store.Filled) (hs : s.contents.Keyed) (a : Action) :
    (s.act a).store.Filled := by
  cases a with
  | inspect => exact h
  | deferToken scope t => exact h.change _ fun _ hu => by cases hu
  | consumeToken scope => exact h.consumeToken scope
  | removeTokens scope => exact h.removeTokens scope
  | addInstance key value intent => exact h.setInstance key _
  | setIntent key intent => exact h.setIntent key intent
  | removeInstance key => exact h.removeInstance key
  | removeTree key => exact h.removeTree hs key
  | blacklist key =>
    show (s.addToBlacklist key).store.Filled
    rw [PartitionState.addToBlacklist_store]
    exact h
  | emit intent value => exact h
  | emitAbout key intent value => exact h
  | resetOutput => exact h

end Filled

end Store

theorem PartitionState.Formed.filled {s : PartitionState} (h : s.Formed) : s.store.Filled := by
  induction h with
  | empty => exact fun us hus => by cases hus
  | begin _ _ =>
    intro us hus scope hmem
    cases hus
    cases hmem
  | commit _ _ => exact fun us hus => by cases hus
  | rollback _ _ => exact fun us hus => by cases hus
  | act a h ih => exact ih.act h.keyed.contents a

/-! ## The lists never differ from the state -/

namespace Queues

variable {s : PartitionState} {q : Queues}

/-- The lists keep showing the contents when an action is performed. -/
theorem Shows.act (h : q.Shows s.contents) (hs : s.contents.Keyed) (a : Action) :
    (note s q (.perform a)).Shows (s.act a).contents := by
  cases a with
  | deferToken scope t => exact h.pushBack scope t
  | consumeToken scope =>
    refine (h.popFront scope).congr fun k => ?_
    rw [Contents.tokensOf_setTokens]
    refine (s.store.tokensOf_consumeToken scope k).trans ?_
    split
    · rename_i hk
      rw [hk]
      rfl
    · rfl
  | removeTokens scope =>
    refine (h.erase scope).congr fun k => ?_
    show (s.store.removeTokens scope).2.contents.tokensOf k = _
    rw [Store.removeTokens_contents]
    rfl
  | removeInstance scope =>
    refine (h.erase scope).congr fun k => ?_
    show (s.store.removeInstance scope).2.contents.tokensOf k = _
    rw [Store.removeInstance_contents]
    rfl
  | removeTree key =>
    intro k
    show ((key :: Store.keysOf (s.store.removeTree key).1).foldl SortedMap.erase q).get? k =
      if (s.store.removeTree key).2.contents.tokensOf k = [] then none
      else some ((s.store.removeTree key).2.contents.tokensOf k)
    rw [get?_eraseAll, Store.tokensOf_removeTree hs]
    by_cases hk : k ∈ key :: Store.keysOf (s.store.removeTree key).1
    · rw [if_pos hk, if_pos (List.mem_cons.mp hk), if_pos rfl]
    · rw [if_neg hk, if_neg fun hmem => hk (List.mem_cons.mpr hmem)]
      exact h k
  | _ => exact h.congr fun k => PartitionState.tokensOf_act hs _ k

theorem Shows.operate (h : q.Shows s.contents) (hs : s.Formed) (op : Operation) :
    (note s q op).Shows (s.operate op).contents := by
  cases op with
  | begin => exact h
  | commit => exact h
  | perform a => exact h.act hs.keyed.contents a
  | rollback =>
    -- Without a transaction nothing is undone.
    refine h.undoAll fun scope hmem => ?_
    cases hjournal : s.store.journal with
    | none =>
      rw [hjournal] at hmem
      cases hmem
    | some us =>
      rw [hjournal] at hmem
      exact hs.filled us hjournal scope hmem

/-- **The lists and the contents never differ.** -/
theorem shows_after (ops : List Operation) :
    (after ops).Shows (PartitionState.empty.operateAll ops).contents :=
  PartitionState.Formed.empty.accountAll (fun s (q : Queues) => q.Shows s.contents)
    (fun _ _ op hs h => h.operate hs op) (fun _ => rfl) ops

end Queues

/-! ## Undoing a transaction -/

namespace PartitionState

/-- **Undoing a transaction restores what was there when it was opened**,
    whatever actions were performed since, and of several openings the latest
    counts. It closes the transaction, and after keeping one there is nothing
    left to undo. After every history the lists are those of the opening again,
    in their order and none of them empty. The stopped workflow instances are not
    part of any transaction. -/
theorem rollback_restores (s : PartitionState) (actions : List Action) :
    (s.begin.actAll actions).rollback.contents = s.contents ∧
      (s.begin.actAll actions).rollback.store.inTransaction = false ∧
      (∀ before : List Operation,
        let undone := before ++ (.begin :: actions.map .perform ++ [.rollback])
        Queues.after undone = Queues.after before ∧
          ∀ scope, (Queues.after undone).get? scope ≠ some [] ∧
            (Queues.after undone).tokensOf scope =
              (empty.operateAll undone).contents.tokensOf scope) ∧
      (∀ later, ((s.begin.actAll actions).begin.actAll later).rollback.contents =
        (s.begin.actAll actions).contents) ∧
      (∀ later, ((s.begin.actAll actions).commit.actAll later).rollback =
        (s.begin.actAll actions).commit.actAll later) ∧
      ∀ t : PartitionState, t.begin.blacklist = t.blacklist ∧
        t.commit.blacklist = t.blacklist ∧ t.rollback.blacklist = t.blacklist := by
  refine ⟨rollback_actAll_begin s actions, rfl, ?_, rollback_actAll_begin _, ?_, ?_⟩
  · intro before undone
    have hcontents : (empty.operateAll undone).contents = (empty.operateAll before).contents := by
      rw [operateAll_append, operateAll_undone, rollback_actAll_begin]
    have hshows := Queues.shows_after undone
    have hbefore := Queues.shows_after before
    rw [← hcontents] at hbefore
    exact ⟨hbefore.eq hshows, fun scope => ⟨hshows.ne_nil scope, hshows.tokensOf_eq scope⟩⟩
  · intro later
    apply rollback_of_closed
    exact ((s.begin.actAll actions).commit.actAll_noted later).open_iff
  · intro t
    exact ⟨rfl, rfl, rfl⟩

end PartitionState

end WorkflowEngine
