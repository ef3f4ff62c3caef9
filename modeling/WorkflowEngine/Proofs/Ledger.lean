import Mathlib.Data.List.DropRight
import WorkflowEngine.Proofs.PlainQueues

/-! # Tokens Queue in Order

    What happens to the tokens of a scope is a sequence of movements: tokens are
    deferred and consumed, and at times the scope is cleared. A ledger keeps the
    movements that no rollback has undone, those of the open transaction apart,
    so undoing it is to drop them.

    The invariant is `Ledger.Balanced`: since the last clearing, what was consumed
    and what waits is what was deferred, now and after a rollback.

    ### Main statement

    `tokens_queue_in_order`: after every history no list of tokens is empty, so
    looking for tokens and consuming one agree, and the ledgers of all scopes
    balance.
-/

namespace WorkflowEngine

/-! ## Movements -/

namespace Movement

/-- The token that was deferred. -/
def deferred? : Movement → Option Token
  | deferred t => some t
  | _ => none

/-- The token that was consumed. -/
def consumed? : Movement → Option Token
  | consumed t => some t
  | _ => none

/-- The movements since the scope was last cleared. -/
def sinceCleared (ms : List Movement) : List Movement := ms.rtakeWhile (· ≠ cleared)

/-- The tokens that were deferred since the scope was last cleared, in order. -/
def deferredSince (ms : List Movement) : List Token := (sinceCleared ms).filterMap deferred?

/-- The tokens that were consumed since the scope was last cleared, in order. -/
def consumedSince (ms : List Movement) : List Token := (sinceCleared ms).filterMap consumed?

/-- What was consumed and what waits is what was deferred, in order. -/
def Balances (ms : List Movement) (waiting : List Token) : Prop :=
  consumedSince ms ++ waiting = deferredSince ms

theorem sinceCleared_cleared (ms : List Movement) : sinceCleared (ms ++ [cleared]) = [] := by
  unfold sinceCleared
  rw [List.rtakeWhile_concat_neg]
  simp

theorem sinceCleared_other (ms : List Movement) {m : Movement} (h : m ≠ cleared) :
    sinceCleared (ms ++ [m]) = sinceCleared ms ++ [m] := by
  unfold sinceCleared
  rw [List.rtakeWhile_concat_pos]
  simpa using h

/-- One more movement keeps the balance. -/
theorem Balances.leaves {ms : List Movement} {waiting : List Token} (h : Balances ms waiting)
    {m : Option Movement} (hm : ∀ t, m = some (consumed t) → waiting.head? = some t) :
    Balances (ms ++ m.toList) (Movement.leaves m waiting) := by
  unfold Balances consumedSince deferredSince at h ⊢
  cases m with
  | none =>
    rw [Option.toList_none, List.append_nil]
    exact h
  | some m =>
    rw [Option.toList_some]
    cases m with
    | cleared =>
      rw [sinceCleared_cleared]
      rfl
    | deferred t =>
      rw [sinceCleared_other ms (by simp), List.filterMap_append, List.filterMap_append, ← h]
      simp [deferred?, consumed?, Movement.leaves]
    | consumed t =>
      obtain ⟨rest, rfl⟩ := List.head?_eq_some_iff.mp (hm t rfl)
      rw [sinceCleared_other ms (by simp), List.filterMap_append, List.filterMap_append, ← h]
      simp [deferred?, consumed?, Movement.leaves]

end Movement

/-- What happened to the tokens of a scope, as far as nothing has undone it. -/
structure Ledger where
  /-- What no rollback can undo any more. -/
  settled : List Movement := []
  /-- What happened since the open transaction was opened. -/
  recent : List Movement := []

namespace Ledger

/-- All movements in order. -/
def movements (l : Ledger) : List Movement := l.settled ++ l.recent

/-- What an operation adds, or takes away. Opening a transaction gives up the one
    that is open, so what was done in it stays. -/
def note (scope : Key) (s : PartitionState) (l : Ledger) : Operation → Ledger
  | .begin | .commit => ⟨l.movements, []⟩
  | .rollback => if s.store.inTransaction then ⟨l.settled, []⟩ else l
  | .perform a => { l with recent := l.recent ++ (a.movement? s scope).toList }

/-- The ledger of a scope after a history. -/
def after (scope : Key) (ops : List Operation) : Ledger :=
  PartitionState.accountAll (note scope) .empty {} ops

/-- The movements balance, and so do those that a rollback would leave. -/
structure Balanced (scope : Key) (s : PartitionState) (l : Ledger) : Prop where
  /-- With the tokens that wait now. -/
  now : Movement.Balances l.movements (s.contents.tokensOf scope)
  /-- With the tokens that would wait if the open transaction were undone. -/
  undone : s.store.inTransaction = true →
    Movement.Balances l.settled (s.store.restored.tokensOf scope)

variable {scope : Key} {s : PartitionState} {l : Ledger}

theorem Balanced.operate (h : l.Balanced scope s) (hs : s.Formed) (op : Operation) :
    (note scope s l op).Balanced scope (s.operate op) := by
  cases op with
  | begin =>
    -- From now on a rollback leads back to here.
    have hmovements : (note scope s l .begin).movements = l.movements := List.append_nil _
    exact ⟨hmovements ▸ h.now, fun _ => h.now⟩
  | commit =>
    have hmovements : (note scope s l .commit).movements = l.movements := List.append_nil _
    exact ⟨hmovements ▸ h.now, fun hopen => by cases hopen⟩
  | rollback =>
    cases hopen : s.store.inTransaction with
    | false =>
      have hsame : s.operate .rollback = s := PartitionState.rollback_of_closed hopen
      have hnote : note scope s l .rollback = l := by
        unfold note
        rw [hopen]
        rfl
      rw [hsame, hnote]
      exact h
    | true =>
      have hnote : note scope s l .rollback = ⟨l.settled, []⟩ := by
        unfold note
        rw [hopen]
        rfl
      rw [hnote]
      refine ⟨?_, fun hclosed => by cases hclosed⟩
      rw [movements, List.append_nil]
      exact h.undone hopen
  | perform a =>
    have hnoted : s.store.Noted (s.act a).store := a.perform_noted ⟨s, ⟨0, []⟩⟩
    refine ⟨?_, fun hopen => ?_⟩
    · show Movement.Balances (l.settled ++ (l.recent ++ (a.movement? s scope).toList))
        ((s.act a).contents.tokensOf scope)
      rw [PartitionState.tokensOf_act hs.keyed.contents, ← List.append_assoc]
      exact h.now.leaves fun t ht => PartitionState.head?_of_consumed ht
    · -- What the action does is noted, so undoing leads back to the same tokens.
      have hopen' : s.store.inTransaction = true := hnoted.open_iff ▸ hopen
      show Movement.Balances l.settled ((s.act a).store.restored.tokensOf scope)
      rw [hnoted.restored hopen']
      exact h.undone hopen'

/-- **The ledger of a scope balances after every history.** -/
theorem balanced_after (scope : Key) (ops : List Operation) :
    (after scope ops).Balanced scope (PartitionState.empty.operateAll ops) :=
  PartitionState.Formed.empty.accountAll (fun s (l : Ledger) => l.Balanced scope s)
    (fun _ _ op hs h => h.operate hs op)
    (show Balanced scope .empty {} from ⟨rfl, fun _ => rfl⟩) ops

end Ledger

/-! ## The start event of a container -/

/-- One program after the other fails in the first or in the second one. -/
theorem Program.error_of_run_bind {α β : Type} {program : Program α} {next : α → Program β}
    {w : Workspace} {error : EngineError} (h : ((program.bind next).run w).1 = .error error) :
    (program.run w).1 = .error error ∨
      ∃ a, (program.run w).1 = .ok a ∧ ((next a).run (program.run w).2).1 = .error error := by
  induction program generalizing w with
  | finish result =>
    cases result with
    | ok a => exact .inr ⟨a, rfl, h⟩
    | error error' =>
      cases h
      exact .inl rfl
  | step a rest ih => exact ih _ h

/-- A container looks for tokens before it takes one, so it never misses one. -/
theorem Handler.startElement_finds_token (c : StepContext) (container : Container) (w : Workspace)
    (scope : Key) :
    ((Handler.startElement c container w.state.contents).run w).1 ≠
      .error (.noDeferredToken scope) := by
  unfold Handler.startElement
  simp only
  split
  · intro h
    cases h
  · split
    · rename_i hhas
      obtain ⟨t, ts, htokens⟩ := List.exists_cons_of_ne_nil (Contents.hasTokens_iff.mp hhas)
      have hok : ((Program.consumeToken c.record.value.instanceKey).run w).1 = .ok t :=
        (Store.consumeToken_of_cons (s := w.state.store) htokens).1
      intro h
      rcases Program.error_of_run_bind h with hfirst | ⟨a, -, hrest⟩
      · rw [hok] at hfirst
        cases hfirst
      · cases hrest
    · intro h
      cases h

theorem Handler.triggerStartEvent_finds_token (c : StepContext) (w : Workspace) (scope : Key) :
    ((Handler.triggerStartEvent c).run w).1 ≠ .error (.noDeferredToken scope) := by
  obtain ⟨r, workflow, el⟩ := c
  cases el with
  | container container =>
    rw [Engine.triggerStartEvent_container, Program.run_step]
    have hseen : Action.inspect.perform w = (w.state.contents, w) := rfl
    simp only [hseen]
    split
    · intro h
      cases h
    · intro h
      rcases Program.error_of_run_bind h with hstart | ⟨id, -, hemit⟩
      · exact Handler.startElement_finds_token _ container w scope hstart
      · cases hemit
  | catchEvent ev =>
    intro h
    cases h
  | node id kind =>
    intro h
    cases h

/-- **The tokens of a scope queue in order**, whatever was done to it and to other
    scopes, in transactions that were kept, undone or given up. No list of tokens
    is ever empty, so a scope that has a list has a token to consume; without one
    nothing changes. Since the scope was last cleared, what was consumed and what
    still waits is what was deferred. -/
theorem tokens_queue_in_order (ops : List Operation) :
    let s := PartitionState.empty.operateAll ops
    (∀ scope, (Queues.after ops).tokensOf scope = s.contents.tokensOf scope ∧
        (Queues.after ops).get? scope ≠ some []) ∧
      (∀ scope, (s.contents.hasTokens scope = true ↔
        (Queues.after ops).contains scope = true) ∧
        (s.contents.hasTokens scope = true ↔ 0 < s.contents.tokenCount scope) ∧
        (s.contents.hasTokens scope = true ↔ s.contents.tokensOf scope ≠ []) ∧
        (s.contents.hasTokens scope = true ↔ ∃ t, (s.store.consumeToken scope).1 = .ok t)) ∧
      (∀ scope error, (s.store.consumeToken scope).1 = .error error →
        (s.store.consumeToken scope).2 = s.store) ∧
      (∀ k i, s.contents.instance? k = some i → i.key = k) ∧
      (∀ scope, Movement.consumedSince (Ledger.after scope ops).movements ++
        s.contents.tokensOf scope = Movement.deferredSince (Ledger.after scope ops).movements) ∧
      ∀ c output scope, ((Handler.triggerStartEvent c).run ⟨s, output⟩).1 ≠
        .error (.noDeferredToken scope) := by
  intro s
  have hformed : s.Formed := PartitionState.Formed.empty.operateAll ops
  have hshows : (Queues.after ops).Shows s.contents := Queues.shows_after ops
  refine ⟨fun scope => ⟨hshows.tokensOf_eq scope, hshows.ne_nil scope⟩, fun scope => ?_, ?_,
    hformed.keyed.contents, fun scope => (Ledger.balanced_after scope ops).now,
    fun c output scope => Handler.triggerStartEvent_finds_token c ⟨s, output⟩ scope⟩
  · refine ⟨Contents.hasTokens_iff.trans hshows.contains_iff.symm, ?_,
      Contents.hasTokens_iff, ?_⟩
    · rw [Contents.hasTokens_iff, Contents.tokenCount, List.length_pos_iff]
    · rw [Contents.hasTokens_iff, Store.consumeToken_ok_iff]
      rfl
  · exact fun scope error h => Store.consumeToken_of_error h

/-- What a rollback undoes is not in the ledger, and what was done in a
    transaction that is given up stays in it. -/
example :
    (Ledger.after 5
      [.perform (.deferToken 5 ⟨1, {}⟩), .begin, .perform (.removeTokens 5),
        .perform (.deferToken 5 ⟨2, {}⟩), .rollback, .begin,
        .perform (.deferToken 5 ⟨3, {}⟩),
        .begin, .perform (.consumeToken 5), .rollback, .perform (.consumeToken 5)]).movements =
      [.deferred ⟨1, {}⟩, .deferred ⟨3, {}⟩, .consumed ⟨1, {}⟩] := by
  decide +kernel

end WorkflowEngine
