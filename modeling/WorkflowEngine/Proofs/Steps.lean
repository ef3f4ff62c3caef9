import WorkflowEngine.Proofs.Transaction

/-! # What the Standard Handlers Do

    One equation for each step of a container and its start events: how the
    handling ends, the new tokens and instances, and the emitted records. They
    are about a state outside of any transaction in which nothing is stopped.
    What follows about runs uses these equations and no handler.
-/

namespace WorkflowEngine

/-! ## Tokens and instances -/

namespace Contents

@[simp] theorem instance?_setInstance (c : Contents) (key other : Key)
    (i : Option ElementInstance) :
    (c.setInstance key i).instance? other = if other = key then i else c.instance? other := by
  simp [instance?, setInstance]

@[simp] theorem instance?_setTokens (c : Contents) (scope other : Key) (ts : List Token) :
    (c.setTokens scope ts).instance? other = c.instance? other := rfl

@[simp] theorem tokensOf_setInstance (c : Contents) (key scope : Key) (i : Option ElementInstance) :
    (c.setInstance key i).tokensOf scope = c.tokensOf scope := rfl

theorem hasTokens_of_tokensOf {c : Contents} {scope : Key} {t : Token} {ts : List Token}
    (h : c.tokensOf scope = t :: ts) : c.hasTokens scope = true :=
  hasTokens_iff.mpr (by simp [h])

theorem childrenOf_eq_nil {c : Contents} {key : Key}
    (h : ∀ k i, c.instance? k = some i → i.parentKey ≠ key) : c.childrenOf key = [] := by
  unfold childrenOf
  refine List.filter_eq_nil_iff.mpr fun i hi => ?_
  obtain ⟨k, hk⟩ := SortedMap.mem_values.mp hi
  simpa using h k i hk

end Contents

namespace Store

@[simp] theorem removeTokens_contents (s : Store) (scope : Key) :
    (s.removeTokens scope).2.contents = s.contents.setTokens scope [] := by
  unfold removeTokens
  split
  · rename_i hnil
    rw [← hnil, Contents.setTokens_tokensOf]
  · rfl

@[simp] theorem removeInstance_contents (s : Store) (key : Key) :
    (s.removeInstance key).2.contents = (s.contents.setTokens key []).setInstance key none := by
  have htokens := removeTokens_contents s key
  unfold removeInstance
  simp only
  split
  · -- Nothing was tracked, and nothing is tracked now.
    rename_i hnone
    rw [htokens] at hnone ⊢
    rw [← hnone, Contents.setInstance_instance?]
  · show (Contents.setInstance _ key none) = _
    rw [htokens]

/-- Without anything within it, removing a scope removes the scope alone. -/
theorem removeTree_contents {s : Store} {key : Key}
    (h : ∀ k i, s.contents.instance? k = some i → i.parentKey ≠ key) :
    (s.removeTree key).2.contents = (s.contents.setTokens key []).setInstance key none := by
  have hcontents := removeInstance_contents s key
  have hchildren : (s.removeInstance key).2.contents.childrenOf key = [] := by
    apply Contents.childrenOf_eq_nil
    intro k i hi
    rw [hcontents, Contents.instance?_setInstance] at hi
    split at hi
    · cases hi
    · exact h k i hi
  unfold removeTree
  simp only [hchildren, List.map_nil, List.reverse_nil]
  have hnested :
      ∀ n, (removeNested n [] (s.removeInstance key).2).2 = (s.removeInstance key).2 := by
    intro n
    cases n <;> rfl
  rw [hnested, hcontents]

end Store

/-- The state with the given tokens and instances, outside of any transaction
    and with nothing stopped. -/
def PartitionState.holding (c : Contents) : PartitionState := ⟨⟨c, none⟩, .empty⟩

/-! ## The standard registry -/

namespace Registry

theorem standard_occurred :
    standard.get? ⟨.startEvent, .eventOccurred⟩ = some Handler.eventOccurred :=
  rfl

theorem standard_triggering :
    standard.get? ⟨.startEvent, .eventTriggering⟩ = some Handler.triggerEvent := rfl

theorem standard_triggered : standard.get? ⟨.startEvent, .eventTriggered⟩ = none := rfl

variable {kind : ElementKind}

theorem standard_activating (h : kind.isContainer = true) :
    standard.get? ⟨kind, .elementActivating⟩ = some Handler.activateElement := by
  cases kind <;> first | rfl | cases h

theorem standard_activated (h : kind.isContainer = true) :
    standard.get? ⟨kind, .elementActivated⟩ = some Handler.triggerStartEvent := by
  cases kind <;> first | rfl | cases h

theorem standard_terminating (h : kind.isContainer = true) :
    standard.get? ⟨kind, .elementTerminating⟩ = some Handler.terminateContainer := by
  cases kind <;> first | rfl | cases h

theorem standard_terminated (kind : ElementKind) :
    standard.get? ⟨kind, .elementTerminated⟩ = none := by
  cases kind <;> rfl

end Registry

namespace Engine

/-! ## The step of each handler -/

/-- The workflow and the element that a record names are deployed. -/
structure Finds (e : Engine) (r : Record) (w : Workflow) (el : Element) : Prop where
  /-- The workflow is deployed. -/
  workflow : e.repository.get? r.value.workflowKey = some w
  /-- The element is part of it. -/
  element : w.element? r.value.elementId = some el

section Handlers

variable {e : Engine} {c : Contents} {r : Record} {w : Workflow}

theorem Finds.program?_eq {el : Element} (h : e.Finds r w el) :
    e.program? r = .ok
      ((e.registry.get? ⟨el.kind, r.intent⟩).map fun handler => handler ⟨r, w, el⟩) := by
  unfold program?
  simp only [h.workflow, h.element]

theorem Finds.handle_eq {el : Element} {handler : Handler} (h : e.Finds r w el)
    (hstd : e.registry = .standard)
    (hget : Registry.standard.get? ⟨el.kind, r.intent⟩ = some handler) :
    e.handle (.holding c) r = transact (.holding c) r (handler ⟨r, w, el⟩) := by
  rw [handle_of_free rfl, h.program?_eq, hstd, hget]
  rfl

/-- Without a handler a record is passed over. -/
theorem handle_noHandler {el : Element} (h : e.Finds r w el) (hstd : e.registry = .standard)
    (hget : Registry.standard.get? ⟨el.kind, r.intent⟩ = none) :
    e.handle (.holding c) r = (.skipped .noHandler, .holding c, []) := by
  rw [handle_of_free rfl, h.program?_eq, hstd, hget]
  rfl

theorem transact_of_run {s : PartitionState} {program : Program Unit} {ws : Workspace}
    (h : program.run (workspace s r) = (.ok (), ws)) :
    transact s r program = (.processed, ws.state.commit, ws.output.pending) := by
  unfold workspace at h
  unfold transact
  rw [h]

/-- An event that occurs leaves a token and activates its container. -/
theorem handle_eventOccurred {ev : CatchEvent} {scope : Container} (hstd : e.registry = .standard)
    (h : e.Finds r w (.catchEvent ev)) (hkind : ev.kind = .startEvent)
    (hscope : w.flowScopeOf? r.value.elementId = some scope) (hintent : r.intent = .eventOccurred) :
    e.handle (.holding c) r =
      (.processed,
        .holding (c.setTokens r.instanceKey
          (c.tokensOf r.instanceKey ++ [⟨r.key, r.value.withInstance r.key⟩])),
        [.followUp .elementActivating { r.value.withInstance r.key with elementId := scope.id }
          r.position]) := by
  have hget : Registry.standard.get? ⟨(Element.catchEvent ev).kind, r.intent⟩ =
      some Handler.eventOccurred := by
    rw [hintent, show (Element.catchEvent ev).kind = .startEvent from hkind]
    exact Registry.standard_occurred
  rw [h.handle_eq hstd hget]
  unfold Handler.eventOccurred
  simp only [hscope]
  rfl

/-- An activated container is tracked. -/
theorem handle_activateElement {scope : Container} (hstd : e.registry = .standard)
    (h : e.Finds r w (.container scope)) (hintent : r.intent = .elementActivating) :
    e.handle (.holding c) r =
      (.processed,
        .holding (c.setInstance r.key (some
          ⟨r.key, r.value.scopeKey, r.instanceKey, r.value.elementId, .elementActivated⟩)),
        [(PendingRecord.followUp .elementActivated (r.value.withInstance r.key) r.position).withKey
          r.key]) := by
  rw [h.handle_eq hstd (hintent ▸ Registry.standard_activating scope.isContainer)]
  rfl

theorem triggerStartEvent_container {scope : Container} :
    Handler.triggerStartEvent ⟨r, w, .container scope⟩ = .step .inspect fun contents =>
      if (contents.instance? r.key).isNone then pure ()
      else (Handler.startElement ⟨r, w, .container scope⟩ scope contents).bind fun elementId =>
        Program.perform
          (.emit .eventTriggering { r.value with elementId, scopeKey := r.key }) := rfl

section Start

variable {s : PartitionState} {scope : Container}

theorem run_triggerStartEvent_untracked (hnone : s.contents.instance? r.key = none) :
    (Handler.triggerStartEvent ⟨r, w, .container scope⟩).run (workspace s r) =
      (.ok (), workspace s r) := by
  have hseen : (Action.inspect.perform (workspace s r)).1 = s.contents := rfl
  rw [triggerStartEvent_container, Program.run_step]
  simp only [hseen, hnone]
  rfl

theorem run_triggerStartEvent_token {i : ElementInstance} {t : Token} {ts : List Token}
    (hsome : s.contents.instance? r.key = some i) (hfirst : scope.firstStartEvent.isNone = false)
    (htokens : s.contents.tokensOf r.value.instanceKey = t :: ts) :
    (Handler.triggerStartEvent ⟨r, w, .container scope⟩).run (workspace s r) =
      (.ok (), ⟨⟨⟨s.contents.setTokens r.value.instanceKey ts,
        some [.restoreOldest r.value.instanceKey t]⟩, s.blacklist⟩, ⟨r.position,
          [.followUp .eventTriggering
            { r.value with
              elementId := t.value.elementId
              scopeKey := r.key } r.position]⟩⟩) := by
  -- The start event is the one that the consumed token names.
  have hstart : Handler.startElement ⟨r, w, .container scope⟩ scope s.contents =
      (Program.consumeToken r.value.instanceKey).bind fun token => pure token.value.elementId := by
    unfold Handler.startElement
    simp only [hfirst, Contents.hasTokens_of_tokensOf htokens]
    rfl
  have hconsume : (Action.consumeToken r.value.instanceKey).perform (workspace s r) =
      (.ok t, ⟨⟨⟨s.contents.setTokens r.value.instanceKey ts,
          some [.restoreOldest r.value.instanceKey t]⟩, s.blacklist⟩,
        ⟨r.position, []⟩⟩) := by
    show ((workspace s r).onStore fun s => s.consumeToken r.value.instanceKey) = _
    unfold Workspace.onStore PartitionState.onStore Store.consumeToken
    have hqueue : (workspace s r).state.store.contents.tokensOf r.value.instanceKey = t :: ts :=
      htokens
    simp only [hqueue]
    rfl
  have hseen : (Action.inspect.perform (workspace s r)).1 = s.contents := rfl
  rw [triggerStartEvent_container, Program.run_step]
  simp only [hseen, hsome, hstart]
  show (Program.step (.consumeToken r.value.instanceKey) _).run (workspace s r) = _
  rw [Program.run_step, hconsume]
  rfl

end Start

/-- A container that is no longer tracked is not started. -/
theorem handle_triggerStartEvent_untracked {scope : Container} (hstd : e.registry = .standard)
    (h : e.Finds r w (.container scope)) (hintent : r.intent = .elementActivated)
    (hnone : c.instance? r.key = none) :
    e.handle (.holding c) r = (.processed, .holding c, []) := by
  rw [h.handle_eq hstd (hintent ▸ Registry.standard_activated scope.isContainer)]
  exact transact_of_run (run_triggerStartEvent_untracked (s := .holding c) hnone)

/-- A tracked container starts from the oldest token of its workflow instance. -/
theorem handle_triggerStartEvent_token {scope : Container} {i : ElementInstance} {t : Token}
    {ts : List Token} (hstd : e.registry = .standard) (h : e.Finds r w (.container scope))
    (hintent : r.intent = .elementActivated) (hsome : c.instance? r.key = some i)
    (hfirst : scope.firstStartEvent.isNone = false)
    (htokens : c.tokensOf r.value.instanceKey = t :: ts) :
    e.handle (.holding c) r =
      (.processed, .holding (c.setTokens r.value.instanceKey ts),
        [.followUp .eventTriggering
          { r.value with elementId := t.value.elementId, scopeKey := r.key } r.position]) := by
  rw [h.handle_eq hstd (hintent ▸ Registry.standard_activated scope.isContainer)]
  exact transact_of_run (run_triggerStartEvent_token (s := .holding c) hsome hfirst htokens)

/-- A start event that is triggered is acknowledged. -/
theorem handle_triggerEvent {ev : CatchEvent} (hstd : e.registry = .standard)
    (h : e.Finds r w (.catchEvent ev)) (hkind : ev.kind = .startEvent)
    (hintent : r.intent = .eventTriggering) :
    e.handle (.holding c) r =
      (.processed, .holding c,
        [(PendingRecord.followUp .eventTriggered r.value r.position).withKey r.key]) := by
  have hget : Registry.standard.get? ⟨(Element.catchEvent ev).kind, r.intent⟩ =
      some Handler.triggerEvent := by
    rw [hintent, show (Element.catchEvent ev).kind = .startEvent from hkind]
    exact Registry.standard_triggering
  rw [h.handle_eq hstd hget]
  rfl

/-- Terminating a container at the top level with nothing within it removes the
    container, its tokens and those of its workflow instance. -/
theorem handle_terminateContainer {scope : Container} (hstd : e.registry = .standard)
    (h : e.Finds r w (.container scope)) (hintent : r.intent = .elementTerminating)
    (hroot : r.value.hasScope = false)
    (hchildren : ∀ k i, c.instance? k = some i → i.parentKey ≠ r.key) :
    e.handle (.holding c) r =
      (.processed,
        .holding (((c.setTokens r.key []).setInstance r.key none).setTokens r.value.instanceKey []),
        [(PendingRecord.followUp .elementTerminated r.value r.position).withKey r.key]) := by
  have hprogram : Handler.terminateContainer ⟨r, w, .container scope⟩ =
      .step (.removeTree r.key) fun _ => .step (.removeTokens r.value.instanceKey) fun _ =>
        .step (.emitAbout r.key .elementTerminated r.value) fun _ => .finish (.ok ()) := by
    unfold Handler.terminateContainer
    simp only [hroot]
    rfl
  have hcontents : (((workspace (.holding c) r).state.store.removeTree r.key).2.removeTokens
      r.value.instanceKey).2.contents =
        ((c.setTokens r.key []).setInstance r.key none).setTokens r.value.instanceKey [] := by
    rw [Store.removeTokens_contents, Store.removeTree_contents hchildren]
    rfl
  rw [h.handle_eq hstd (hintent ▸ Registry.standard_terminating scope.isContainer), hprogram,
    ← hcontents]
  rfl

end Handlers

end Engine

end WorkflowEngine
