import WorkflowEngine.Proofs.Steps

/-! # Histories of a State

    The state of a partition has a history: from the empty state on,
    transactions are opened, kept and undone, and actions are performed, inside
    of transactions and outside of them. `PartitionState.Formed` are the states
    that have one. The processor only ever sees such states, and between two
    records no transaction is open.

    ### Main statement

    `PartitionState.Formed.keyed`: in such a state every instance is tracked under
    its own key, and undoing the open transaction does not change that.
-/

namespace WorkflowEngine

/-! ## Sequences of actions -/

namespace PartitionState

/-- Perform an action, whatever it answers and emits. -/
def act (s : PartitionState) (a : Action) : PartitionState :=
  (a.perform ⟨s, ⟨0, []⟩⟩).2.state

/-- Perform actions in order. -/
def actAll (s : PartitionState) (actions : List Action) : PartitionState := actions.foldl act s

/-- What an action does to the state does not depend on the output. -/
theorem perform_state (a : Action) (w : Workspace) : (a.perform w).2.state = w.state.act a := by
  cases a <;> rfl

theorem actAll_noted (s : PartitionState) (actions : List Action) :
    s.store.Noted (s.actAll actions).store := by
  induction actions generalizing s with
  | nil => exact .refl _
  | cons a actions ih =>
    have hfirst : s.store.Noted (s.act a).store := a.perform_noted ⟨s, ⟨0, []⟩⟩
    exact hfirst.trans (ih (s.act a))

/-- From its latest opening on, everything that was done is noted, so that undoing
    the transaction brings the contents of the opening back. -/
theorem rollback_actAll_begin (s : PartitionState) (actions : List Action) :
    (s.begin.actAll actions).rollback.contents = s.contents := by
  have hstore : (s.begin.actAll actions).store.rollback = ⟨s.store.contents, none⟩ :=
    (s.begin.actAll_noted actions).rollback_begin
  show (s.begin.actAll actions).store.rollback.contents = s.store.contents
  rw [hstore]

/-- Without a transaction there is nothing to undo. -/
theorem rollback_of_closed {s : PartitionState} (h : s.store.inTransaction = false) :
    s.rollback = s := by
  obtain ⟨⟨contents, journal⟩, blacklist⟩ := s
  cases journal with
  | none => rfl
  | some us => cases h

/-- The states that are made from the empty one: transactions are opened, kept
    and undone, and actions are performed, in any order. -/
inductive Formed : PartitionState → Prop where
  /-- The empty state. -/
  | empty : Formed .empty
  /-- A transaction is opened. -/
  | begin {s : PartitionState} : Formed s → Formed s.begin
  /-- The transaction is kept. -/
  | commit {s : PartitionState} : Formed s → Formed s.commit
  /-- The transaction is undone. -/
  | rollback {s : PartitionState} : Formed s → Formed s.rollback
  /-- An action is performed. -/
  | act {s : PartitionState} (a : Action) : Formed s → Formed (s.act a)

end PartitionState

/-! ## Instances under their own keys -/

/-- Every instance is tracked under its own key. -/
def Contents.Keyed (c : Contents) : Prop := ∀ k i, c.instance? k = some i → i.key = k

/-- Undoing the change tracks no instance under a key of another one. -/
def Undo.Keyed : Undo → Prop
  | .setInstance key previous => ∀ i, previous = some i → i.key = key
  | _ => True

namespace Store

/-- Every instance is tracked under its own key, and stays so if the open
    transaction is undone. -/
structure Keyed (s : Store) : Prop where
  /-- What is tracked now. -/
  contents : s.contents.Keyed
  /-- What is tracked again when changes are undone. -/
  journal : ∀ us, s.journal = some us → ∀ u ∈ us, u.Keyed

namespace Keyed

variable {s : Store}

theorem setInstance_contents {c : Contents} (h : c.Keyed) {key : Key} {i : Option ElementInstance}
    (hi : ∀ j, i = some j → j.key = key) : (c.setInstance key i).Keyed := by
  intro k j hj
  rw [Contents.instance?_setInstance] at hj
  split at hj
  · rename_i hk
    rw [hk]
    exact hi j hj
  · exact h k j hj

/-- A change is noted with an entry that tracks nothing under a wrong key. -/
theorem change (h : s.Keyed) {c : Contents} {u : Undo} (hc : c.Keyed) (hu : u.Keyed) :
    (s.change c u).Keyed := by
  refine ⟨hc, fun us hus => ?_⟩
  obtain ⟨vs, hvs, rfl⟩ := Option.map_eq_some_iff.mp hus
  exact List.forall_mem_cons.mpr ⟨hu, h.journal vs hvs⟩

theorem setTokens (h : s.Keyed) {u : Undo} (hu : u.Keyed) (scope : Key) (tokens : List Token) :
    (s.change (s.contents.setTokens scope tokens) u).Keyed :=
  h.change h.contents hu

theorem setInstance (h : s.Keyed) {key : Key} {i : Option ElementInstance}
    (hi : ∀ j, i = some j → j.key = key) : (s.setInstance key i).Keyed :=
  h.change (setInstance_contents h.contents hi) (h.contents key)

theorem removeTokens (h : s.Keyed) (scope : Key) : (s.removeTokens scope).2.Keyed := by
  unfold Store.removeTokens
  split
  · exact h
  · apply h.setTokens
    exact trivial

theorem consumeToken (h : s.Keyed) (scope : Key) : (s.consumeToken scope).2.Keyed := by
  unfold Store.consumeToken
  split
  · exact h
  · apply h.setTokens
    exact trivial

theorem setIntent (h : s.Keyed) (key : Key) (intent : Intent) :
    (s.setIntent key intent).2.Keyed := by
  unfold Store.setIntent
  split
  · exact h
  · rename_i i hi
    refine h.setInstance fun j hj => ?_
    rw [← Option.some.inj hj]
    exact h.contents key i hi

theorem removeInstance (h : s.Keyed) (key : Key) : (s.removeInstance key).2.Keyed := by
  unfold Store.removeInstance
  simp only
  split
  · exact h.removeTokens key
  · exact (h.removeTokens key).setInstance (by simp)

theorem removeNested (h : s.Keyed) (n : Nat) (stack : List Key) :
    (Store.removeNested n stack s).2.Keyed := by
  induction n generalizing stack s with
  | zero => exact h
  | succ n ih =>
    cases stack with
    | nil => exact h
    | cons key stack =>
      have hkey := h.removeInstance key
      unfold Store.removeNested
      split
      · rename_i t ht
        rw [ht] at hkey
        exact ih hkey stack
      · rename_i i t ht
        rw [ht] at hkey
        exact ih hkey _

theorem removeTree (h : s.Keyed) (key : Key) : (s.removeTree key).2.Keyed :=
  (h.removeInstance key).removeNested _ _

theorem undo {c : Contents} (h : c.Keyed) {u : Undo} (hu : u.Keyed) : (c.undo u).Keyed := by
  cases u with
  | setInstance key previous => exact setInstance_contents h hu
  | restoreOldest scope token => exact h
  | dropNewest scope => exact h
  | restoreAll scope tokens => exact h

theorem undoAll {c : Contents} (h : c.Keyed) {us : List Undo} (hus : ∀ u ∈ us, u.Keyed) :
    (us.foldl Contents.undo c).Keyed := by
  induction us generalizing c with
  | nil => exact h
  | cons u us ih =>
    obtain ⟨hu, hus⟩ := List.forall_mem_cons.mp hus
    exact ih (undo h hu) hus

theorem rollback (h : s.Keyed) : s.rollback.Keyed := by
  refine ⟨undoAll h.contents ?_, fun us hus => by cases hus⟩
  intro u hu
  cases hjournal : s.journal with
  | none =>
    rw [hjournal] at hu
    cases hu
  | some us =>
    rw [hjournal] at hu
    exact h.journal us hjournal u hu

theorem act {t : PartitionState} (h : t.store.Keyed) (a : Action) : (t.act a).store.Keyed := by
  cases a with
  | inspect => exact h
  | deferToken scope token => exact h.setTokens (u := .dropNewest scope) trivial scope _
  | consumeToken scope => exact h.consumeToken scope
  | removeTokens scope => exact h.removeTokens scope
  | addInstance key value intent =>
    exact h.setInstance fun j hj => by rw [← Option.some.inj hj]
  | setIntent key intent => exact h.setIntent key intent
  | removeInstance key => exact h.removeInstance key
  | removeTree key => exact h.removeTree key
  | blacklist key =>
    show (t.addToBlacklist key).store.Keyed
    rw [PartitionState.addToBlacklist_store]
    exact h
  | emit intent value => exact h
  | emitAbout key intent value => exact h
  | resetOutput => exact h

end Keyed

end Store

/-- **In every state that has a history, instances are tracked under their own
    keys.** -/
theorem PartitionState.Formed.keyed {s : PartitionState} (h : s.Formed) : s.store.Keyed := by
  induction h with
  | empty => exact ⟨fun k i hi => (by cases hi), fun us hus => (by cases hus)⟩
  | begin _ ih => exact ⟨ih.contents, fun us hus u hu => by cases hus; cases hu⟩
  | commit _ ih => exact ⟨ih.contents, fun us hus => by cases hus⟩
  | rollback _ ih => exact ih.rollback
  | act a _ ih => exact ih.act a

/-! ## Handling records -/

namespace Engine

variable {e : Engine} {s : PartitionState}

theorem run_formed {α : Type} (program : Program α) {w : Workspace} (h : w.state.Formed) :
    (program.run w).2.state.Formed := by
  induction program generalizing w with
  | finish result => exact h
  | step a next ih =>
    rw [Program.run_step]
    apply ih
    rw [PartitionState.perform_state]
    exact h.act a

theorem abort_formed (h : s.Formed) (error : EngineError) (k : Key) : (s.abort error k).Formed := by
  unfold PartitionState.abort
  split
  · exact h.rollback.act (.blacklist k)
  · exact h.rollback

/-- Handling a record leads from one state that has a history to another. -/
theorem handle_formed (h : s.Formed) (r : Record) : (e.handle s r).2.1.Formed := by
  unfold handle
  split
  · exact h
  · split
    · exact abort_formed h _ _
    · exact h
    · rename_i program _
      have hrun := run_formed program (w := ⟨s.begin, ⟨r.position, []⟩⟩) h.begin
      unfold transact
      split
      · rename_i w hw
        rw [hw] at hrun
        exact hrun.commit
      · rename_i error w hw
        rw [hw] at hrun
        exact abort_formed hrun _ _

/-- No transaction stays open when a record was handled. -/
theorem handle_closed (h : s.store.inTransaction = false) (r : Record) :
    (e.handle s r).2.1.store.inTransaction = false := by
  unfold handle
  split
  · exact h
  · split
    · rw [abort_store]
      rfl
    · exact h
    · unfold transact
      split
      · rfl
      · rw [abort_store]
        rfl

/-- Along a log all states have a history, and no transaction is open. -/
theorem stateAt_formed (e : Engine) (l : Log) (n : Nat) :
    (e.stateAt l n).Formed ∧ (e.stateAt l n).store.inTransaction = false := by
  unfold stateAt replay
  generalize hs : PartitionState.empty = s
  have hstart : s.Formed ∧ s.store.inTransaction = false := hs ▸ ⟨.empty, rfl⟩
  clear hs
  induction l.records.take n generalizing s with
  | nil => exact hstart
  | cons r rs ih => exact ih _ ⟨handle_formed hstart.1 r, handle_closed hstart.2 r⟩

end Engine

end WorkflowEngine
