import WorkflowEngine.Proofs.Journal
import WorkflowEngine.Proofs.Run

/-! # Records Are Handled All or Nothing

    A handler is an arbitrary finite program of actions. Every action is noted
    in the journal and every emitted record carries the position of the record
    that is handled. Both are kept by whole programs, so the processor can
    take over what a program did or undo it, wherever the program ends.

    ### Main statement

    `processNext_all_or_nothing`: a record is processed and everything its
    program did and emitted is taken over, or it is passed over and nothing
    happens, or it fails and at most its workflow instance is stopped.
-/

namespace WorkflowEngine

/-! ## What every action keeps -/

/-- What a handler emitted carries the position of the record it handles. -/
def Writer.Sourced (w : Writer) : Prop :=
  ∀ p ∈ w.pending, p.sourcePosition = some w.sourcePosition

theorem Writer.sourced_start (position : Nat) : (Writer.mk position []).Sourced := by
  intro p hp
  cases hp

namespace Action

theorem onStore_noted {α : Type} {w : Workspace} {f : Store → α × Store}
    (h : w.state.store.Noted (f w.state.store).2) :
    w.state.store.Noted (w.onStore f).2.state.store := h

/-- Every action notes what it changes. -/
theorem perform_noted (a : Action) (w : Workspace) :
    w.state.store.Noted (a.perform w).2.state.store := by
  cases a with
  | inspect => exact .refl _
  | deferToken scope token => exact onStore_noted (Store.noted_deferToken _ scope token)
  | consumeToken scope => exact onStore_noted (Store.noted_consumeToken _ scope)
  | removeTokens scope => exact onStore_noted (Store.noted_removeTokens _ scope)
  | addInstance key value intent => exact onStore_noted (Store.noted_addInstance _ key value intent)
  | setIntent key intent => exact onStore_noted (Store.noted_setIntent _ key intent)
  | removeInstance key => exact onStore_noted (Store.noted_removeInstance _ key)
  | removeTree key => exact onStore_noted (Store.noted_removeTree _ key)
  | blacklist key =>
    -- Stopping an instance does not touch the store.
    show w.state.store.Noted (w.state.addToBlacklist key).store
    rw [PartitionState.addToBlacklist_store]
    exact .refl _
  | emit intent value => exact .refl _
  | emitAbout key intent value => exact .refl _
  | resetOutput => exact .refl _

/-- Every action keeps the source position of the output, and emits with it. -/
theorem perform_sourced (a : Action) (w : Workspace) (h : w.output.Sourced) :
    (a.perform w).2.output.sourcePosition = w.output.sourcePosition ∧
      (a.perform w).2.output.Sourced := by
  cases a with
  | emit intent value =>
    refine ⟨rfl, fun p hp => ?_⟩
    rcases List.mem_append.mp hp with hp | hp
    · exact h p hp
    · rw [List.mem_singleton.mp hp]; rfl
  | emitAbout key intent value =>
    refine ⟨rfl, fun p hp => ?_⟩
    rcases List.mem_append.mp hp with hp | hp
    · exact h p hp
    · rw [List.mem_singleton.mp hp]; rfl
  | resetOutput => exact ⟨rfl, fun p hp => by cases hp⟩
  | _ => exact ⟨rfl, h⟩

/-- Whether an action works on tokens, instances or the output only. -/
def isLocal : Action → Bool
  | blacklist _ => false
  | _ => true

theorem perform_blacklist {a : Action} (h : a.isLocal = true) (w : Workspace) :
    (a.perform w).2.state.blacklist = w.state.blacklist := by
  cases a with
  | blacklist key => cases h
  | _ => rfl

end Action

/-! ## What every program keeps -/

namespace Program

variable {α : Type}

theorem run_step (a : Action) (next : a.Answer → Program α) (w : Workspace) :
    (step a next).run w = (next (a.perform w).1).run (a.perform w).2 := rfl

theorem run_noted (program : Program α) (w : Workspace) :
    w.state.store.Noted (program.run w).2.state.store := by
  induction program generalizing w with
  | finish result => exact .refl _
  | step a next ih =>
    -- What the action notes comes before what the rest of the program notes.
    rw [run_step]
    exact (a.perform_noted w).trans (ih _ _)

theorem run_sourced (program : Program α) (w : Workspace) (h : w.output.Sourced) :
    (program.run w).2.output.sourcePosition = w.output.sourcePosition ∧
      (program.run w).2.output.Sourced := by
  induction program generalizing w with
  | finish result => exact ⟨rfl, h⟩
  | step a next ih =>
    obtain ⟨hpos, hsourced⟩ := a.perform_sourced w h
    obtain ⟨hpos', hsourced'⟩ := ih (a.perform w).1 (a.perform w).2 hsourced
    rw [run_step]
    exact ⟨hpos'.trans hpos, hsourced'⟩

/-- A program that works on tokens, instances and the output only, whatever its
    actions answer. -/
def IsLocal : Program α → Prop
  | finish _ => True
  | step a next => a.isLocal = true ∧ ∀ answer, (next answer).IsLocal

theorem run_blacklist {program : Program α} (h : program.IsLocal) (w : Workspace) :
    (program.run w).2.state.blacklist = w.state.blacklist := by
  induction program generalizing w with
  | finish result => rfl
  | step a next ih =>
    rw [run_step, ih _ (h.2 _), Action.perform_blacklist h.1]

end Program

namespace Engine

/-! ## One record -/

/-- The workspace that a program starts with when it handles a record. -/
def workspace (s : PartitionState) (r : Record) : Workspace := ⟨s.begin, ⟨r.position, []⟩⟩

theorem run_workspace_source (program : Program Unit) (s : PartitionState) (r : Record) :
    ∀ p ∈ (program.run (workspace s r)).2.output.pending,
      p.sourcePosition = some r.position := by
  obtain ⟨hpos, hsourced⟩ :=
    program.run_sourced (workspace s r) (Writer.sourced_start r.position)
  intro p hp
  rw [hsourced p hp, hpos]
  rfl

/-- Whatever a program did, undoing it restores the store. -/
theorem run_workspace_rollback (program : Program Unit) (s : PartitionState) (r : Record) :
    (program.run (workspace s r)).2.state.store.rollback = ⟨s.store.contents, none⟩ :=
  (program.run_noted (workspace s r)).rollback_begin

/-- Everything that handling a record emits carries the record's position. -/
theorem handle_source (e : Engine) (s : PartitionState) (r : Record) :
    ∀ p ∈ (e.handle s r).2.2, p.sourcePosition = some r.position := by
  intro p hp
  unfold handle at hp
  split at hp
  · cases hp
  · split at hp
    · cases hp
    · cases hp
    · rename_i program _
      unfold transact at hp
      have hsource := run_workspace_source program s r
      unfold workspace at hsource
      split at hp
      · rename_i w hw
        rw [hw] at hsource
        exact hsource p hp
      · cases hp

/-! ## Ends of a transaction -/

theorem abort_store (s : PartitionState) (error : EngineError) (k : Key) :
    (s.abort error k).store = s.store.rollback := by
  unfold PartitionState.abort
  split
  · rw [PartitionState.addToBlacklist_store]
    rfl
  · rfl

/-- A fatal error stops the workflow instance, unless the record names none. -/
theorem abort_blacklist (s : PartitionState) (error : EngineError) (k : Key) :
    (s.abort error k).blacklist =
      if error.isFatal = true ∧ k ≠ Key.unset then s.blacklist.insert k ()
      else s.blacklist := by
  unfold PartitionState.abort PartitionState.addToBlacklist
  by_cases hfatal : error.isFatal = true
  · by_cases hk : k = Key.unset
    · simp [hfatal, hk, PartitionState.rollback]
    · simp [hfatal, hk, PartitionState.rollback]
  · simp [hfatal, PartitionState.rollback]

/-- A partition that took over what the program of a record did: its state, and
    as a block at the end of the log what it emitted, in order. -/
structure TookOver (p p' : Partition) (r : Record) (w : Workspace) : Prop where
  /-- The tokens and instances are those that the program left. -/
  contents : p'.processor.state.contents = w.state.contents
  /-- No workflow instance is stopped. -/
  blacklist : p'.processor.state.blacklist = p.processor.state.blacklist
  /-- The log is the one of the same partition. -/
  partitionId : p'.log.partitionId = p.log.partitionId
  /-- The log gained an entry for each emitted record: with the next position,
      the given or the next fresh key, and the handled record as its source. -/
  records : ∃ new : List Record, p'.log.records = p.log.records ++ new ∧
    ∀ i, new[i]? = w.output.pending[i]?.map fun x =>
      ({ position := p.log.lastPosition + i + 1
         key := x.key.getD (Key.encode p.log.partitionId
           (p.log.nextKey + Log.draws (w.output.pending.take i) : Nat))
         partitionId := p.log.partitionId
         intent := x.intent
         value := x.value
         sourcePosition := some r.position } : Record)
  /-- Only the records without a key drew one. -/
  nextKey : p'.log.nextKey = p.log.nextKey + Log.draws w.output.pending

/-- What each way to handle a record `r` requires and leaves behind. -/
def AllOrNothing (e : Engine) (p : Partition) (r : Record) : Handling → Partition → Prop
  | .processed, p' =>
    p.processor.state.isBlacklisted r.value.instanceKey = false ∧
    ∃ program w, e.program? r = .ok (some program) ∧
      program.run (workspace p.processor.state r) = (.ok (), w) ∧ TookOver p p' r w
  | .skipped reason, p' =>
    (reason = .blacklisted ∧ p.processor.state.isBlacklisted r.value.instanceKey = true ∨
      reason = .noHandler ∧ p.processor.state.isBlacklisted r.value.instanceKey = false ∧
        e.program? r = .ok none) ∧
    p'.log = p.log ∧ p'.processor.state = p.processor.state
  | .failed error, p' =>
    p.processor.state.isBlacklisted r.value.instanceKey = false ∧
    (e.program? r = .error error ∨ ∃ program w, e.program? r = .ok (some program) ∧
      program.run (workspace p.processor.state r) = (.error error, w)) ∧
    p'.log = p.log ∧
    p'.processor.state.contents = p.processor.state.contents ∧
    p'.processor.state.blacklist =
      if error.isFatal = true ∧ r.value.instanceKey ≠ Key.unset
      then p.processor.state.blacklist.insert r.value.instanceKey ()
      else p.processor.state.blacklist

/-! ## A handler that ends, and one that fails in the middle -/

/-- Defer a token, and emit a record with a fresh key and one about the order. -/
def accept : Handler := fun c => do
  let _ ← Program.perform
    (.deferToken c.record.value.instanceKey ⟨c.record.key, c.record.value⟩)
  Program.perform (.emit .elementActivating c.record.value)
  Program.perform (.emitAbout c.record.key .eventTriggering c.record.value)

/-- Do the same, and fail. -/
def refuse : Handler := fun c => do
  accept c
  Program.fail (c.violation "order refused")

theorem accept_isLocal (c : StepContext) : (accept c).IsLocal :=
  ⟨rfl, fun _ => ⟨rfl, fun _ => ⟨rfl, fun _ => trivial⟩⟩⟩

theorem refuse_isLocal (c : StepContext) : (refuse c).IsLocal :=
  ⟨rfl, fun _ => ⟨rfl, fun _ => ⟨rfl, fun _ => trivial⟩⟩⟩

/-- The order process with one handler, for orders. -/
def withHandler (handler : Handler) : Engine :=
  ⟨OrderProcess.repository, Registry.empty.register ⟨.startEvent, .eventOccurred⟩ handler⟩

theorem withHandler_isLocal {handler : Handler} (hlocal : ∀ c, (handler c).IsLocal)
    (step : StepKind) (h : Handler) (hget : (withHandler handler).registry.get? step = some h)
    (c : StepContext) : (h c).IsLocal := by
  unfold withHandler Registry.register Registry.get? at hget
  simp only [Registry.empty, List.filter_nil, List.lookup_cons, List.lookup_nil] at hget
  split at hget
  · obtain rfl := Option.some.inj hget
    exact hlocal c
  · cases hget

/-! ## The next record -/

section Next

variable {e : Engine} {p : Partition} {r : Record}

/-- The program of a record is the one of a registered handler. -/
theorem isLocal_of_program? (hlocal : ∀ step handler, e.registry.get? step = some handler →
    ∀ c, (handler c).IsLocal) {program : Program Unit} (h : e.program? r = .ok (some program)) :
    program.IsLocal := by
  unfold program? at h
  simp only at h
  split at h
  · cases h
  · split at h
    · cases h
    · rename_i workflow _ element _
      obtain ⟨handler, hget, rfl⟩ := Option.map_eq_some_iff.mp (Except.ok.inj h)
      exact hlocal _ handler hget _

/-- A program that ends without an error is taken over. -/
theorem tookOver_of_run {program : Program Unit} {w : Workspace} (hlocal : program.IsLocal)
    (hrun : program.run (workspace p.processor.state r) = (.ok (), w)) :
    TookOver p ⟨p.log.appendAll w.output.pending,
      ⟨w.state.commit, p.processor.lastProcessed + 1⟩⟩ r w := by
  have hsource := run_workspace_source program p.processor.state r
  have hblacklist := Program.run_blacklist hlocal (workspace p.processor.state r)
  rw [hrun] at hsource hblacklist
  refine ⟨rfl, hblacklist, Log.appendAll_partitionId _ _, ?_, Log.appendAll_nextKey _ _⟩
  refine ⟨p.log.entries w.output.pending, Log.appendAll_records _ _, ?_⟩
  intro i
  rw [Log.getElem?_entries]
  cases hi : w.output.pending[i]? with
  | none => rfl
  | some x =>
    have hx : x.sourcePosition = some r.position := hsource x (List.mem_of_getElem? hi)
    simp [hx]

/-- A program runs to its end and is taken over, or fails and is undone. -/
theorem allOrNothing_of_program {program : Program Unit} (hlocal : program.IsLocal)
    (hlisted : p.processor.state.isBlacklisted r.value.instanceKey = false)
    (hprogram : e.program? r = .ok (some program)) :
    e.AllOrNothing p r (transact p.processor.state r program).1
        ⟨p.log.appendAll (transact p.processor.state r program).2.2,
          ⟨(transact p.processor.state r program).2.1, p.processor.lastProcessed + 1⟩⟩ ∧
      (transact p.processor.state r program).2.1.store.inTransaction = false := by
  have hundo := run_workspace_rollback program p.processor.state r
  have hblacklist := Program.run_blacklist hlocal (workspace p.processor.state r)
  unfold transact
  rcases hrun : program.run (workspace p.processor.state r) with ⟨result, w⟩
  rw [hrun] at hundo hblacklist
  have hrun' : program.run ⟨p.processor.state.begin, ⟨r.position, []⟩⟩ = (result, w) := hrun
  rw [hrun']
  cases result with
  | ok => exact ⟨⟨hlisted, program, w, hprogram, hrun, tookOver_of_run hlocal hrun⟩, rfl⟩
  | error error =>
    refine ⟨⟨hlisted, .inr ⟨program, w, hprogram, hrun⟩, rfl, ?_, ?_⟩, ?_⟩
    · show (w.state.abort error _).store.contents = _
      rw [abort_store, hundo]
      rfl
    · show (w.state.abort error _).blacklist = _
      rw [abort_blacklist, hblacklist]
      rfl
    · show (w.state.abort error _).store.inTransaction = false
      rw [abort_store]
      rfl

/-- **A record is handled all or nothing**, whatever finite program of actions on
    tokens, instances and the output its handler is, and wherever that ends. -/
theorem processNext_all_or_nothing
    (hlocal : ∀ step handler, e.registry.get? step = some handler → ∀ c, (handler c).IsLocal)
    (hclosed : p.processor.state.store.inTransaction = false)
    (hnext : p.log.read? (p.processor.lastProcessed + 1) = some r) :
    ∃ o p', e.processNext p = some (o, p') ∧ e.AllOrNothing p r o p' ∧
      p'.processor.lastProcessed = p.processor.lastProcessed + 1 ∧
      p'.processor.state.store.inTransaction = false := by
  refine ⟨_, _, processNext_of_read? hnext, ?_⟩
  unfold after
  cases hlisted : p.processor.state.isBlacklisted r.value.instanceKey with
  | true =>
    rw [handle_of_blacklisted hlisted]
    exact ⟨⟨.inl ⟨rfl, hlisted⟩, rfl, rfl⟩, rfl, hclosed⟩
  | false =>
    rw [handle_of_free hlisted]
    cases hprogram : e.program? r with
    | error error =>
      -- No transaction was begun, so there is nothing to undo.
      refine ⟨⟨hlisted, .inl hprogram, rfl, ?_, abort_blacklist _ _ _⟩, rfl, ?_⟩
      · show (p.processor.state.abort error _).store.contents = _
        rw [abort_store]
        exact Store.restored_of_closed hclosed
      · show (p.processor.state.abort error _).store.inTransaction = false
        rw [abort_store]
        rfl
    | ok program? =>
      cases program? with
      | none => exact ⟨⟨.inr ⟨rfl, hlisted, hprogram⟩, rfl, rfl⟩, rfl, hclosed⟩
      | some program =>
        have hlocal' := isLocal_of_program? hlocal hprogram
        obtain ⟨hends, hclosed'⟩ := allOrNothing_of_program hlocal' hlisted hprogram
        exact ⟨hends, rfl, hclosed'⟩

end Next

/-- An order that is accepted leaves its token and, behind it in the log, both
    records with the order as their source. One that is refused leaves no token
    and no record, and its workflow instance is stopped. One that has no handler
    leaves everything as it was. -/
theorem processNext_order :
    (∃ r p', (OrderProcess.ordered 3).log.read? 1 = some r ∧
      (withHandler accept).processNext (OrderProcess.ordered 3) = some (.processed, p') ∧
      (withHandler accept).AllOrNothing (OrderProcess.ordered 3) r .processed p' ∧
      p'.processor.state.contents.tokensOf 3 = [⟨r.key, r.value⟩] ∧
      p'.log.records.map (fun x => (x.intent, x.sourcePosition)) =
        [(.eventOccurred, none), (.elementActivating, some 1), (.eventTriggering, some 1)]) ∧
    (∃ r error p', (OrderProcess.ordered 3).log.read? 1 = some r ∧
      (withHandler refuse).processNext (OrderProcess.ordered 3) = some (.failed error, p') ∧
      (withHandler refuse).AllOrNothing (OrderProcess.ordered 3) r (.failed error) p' ∧
      p'.processor.state.contents.tokensOf 3 = [] ∧ p'.log = (OrderProcess.ordered 3).log ∧
      p'.processor.state.isBlacklisted 3 = true) ∧
    ∃ r p', (OrderProcess.ordered 3).log.read? 1 = some r ∧
      Engine.processNext ⟨OrderProcess.repository, .empty⟩ (OrderProcess.ordered 3) =
        some (.skipped .noHandler, p') ∧
      AllOrNothing ⟨OrderProcess.repository, .empty⟩ (OrderProcess.ordered 3) r
        (.skipped .noHandler) p' := by
  refine ⟨?_, ?_, ?_⟩
  · obtain ⟨o, p', hnext, hall, -⟩ :=
      processNext_all_or_nothing (withHandler_isLocal accept_isLocal)
        (p := OrderProcess.ordered 3) rfl rfl
    have hends : (withHandler accept).processNext (OrderProcess.ordered 3) =
        some (.processed, _) := rfl
    rw [hends] at hnext
    cases hnext
    exact ⟨_, _, rfl, hends, hall, rfl, rfl⟩
  · obtain ⟨o, p', hnext, hall, -⟩ :=
      processNext_all_or_nothing (withHandler_isLocal refuse_isLocal)
        (p := OrderProcess.ordered 3) rfl rfl
    have hends : (withHandler refuse).processNext (OrderProcess.ordered 3) =
        some (.failed _, _) := rfl
    rw [hends] at hnext
    cases hnext
    exact ⟨_, _, _, rfl, hends, hall, rfl, rfl, rfl⟩
  · obtain ⟨o, p', hnext, hall, -⟩ :=
      processNext_all_or_nothing (e := ⟨OrderProcess.repository, .empty⟩)
        (fun _ _ h => by cases h)
        (p := OrderProcess.ordered 3) rfl rfl
    have hends : Engine.processNext ⟨OrderProcess.repository, .empty⟩ (OrderProcess.ordered 3) =
        some (.skipped .noHandler, _) := rfl
    rw [hends] at hnext
    cases hnext
    exact ⟨_, _, rfl, hends, hall⟩

end Engine

end WorkflowEngine
