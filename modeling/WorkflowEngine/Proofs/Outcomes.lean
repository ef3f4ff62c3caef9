import WorkflowEngine.Proofs.Histories

/-! # Every Outcome of a Record

    What the standard handlers can do with a record, for any record and any
    state in which no transaction is open, whatever is deployed: `Outcome` lists
    the ways in which the handling ends, `Effect` what a processed record changes
    and emits, and `Fault` why a record fails. A law about single steps is
    derived from these lists alone.
-/

namespace WorkflowEngine

/-! ## The standard handlers -/

namespace Registry

/-- The standard handlers and what they are responsible for. -/
inductive StandardStep : ElementKind → Intent → Handler → Prop where
  /-- A start event occurs. -/
  | occurred : StandardStep .startEvent .eventOccurred Handler.eventOccurred
  /-- A start event is triggered. -/
  | triggering : StandardStep .startEvent .eventTriggering Handler.triggerEvent
  /-- A container is activated. -/
  | activating {kind : ElementKind} : kind.isContainer = true →
      StandardStep kind .elementActivating Handler.activateElement
  /-- A container is active. -/
  | activated {kind : ElementKind} : kind.isContainer = true →
      StandardStep kind .elementActivated Handler.triggerStartEvent
  /-- A container is terminated. -/
  | terminating {kind : ElementKind} : kind.isContainer = true →
      StandardStep kind .elementTerminating Handler.terminateContainer

theorem standardStep_of_get? {kind : ElementKind} {intent : Intent} {handler : Handler}
    (h : standard.get? ⟨kind, intent⟩ = some handler) : StandardStep kind intent handler := by
  cases intent with
  | elementActivating =>
    cases kind with
    | process => cases h; exact .activating rfl
    | subProcess => cases h; exact .activating rfl
    | _ => cases h
  | elementActivated =>
    cases kind with
    | process => cases h; exact .activated rfl
    | subProcess => cases h; exact .activated rfl
    | _ => cases h
  | elementTerminating =>
    cases kind with
    | process => cases h; exact .terminating rfl
    | subProcess => cases h; exact .terminating rfl
    | _ => cases h
  | eventOccurred =>
    cases kind with
    | startEvent => cases h; exact .occurred
    | _ => cases h
  | eventTriggering =>
    cases kind with
    | startEvent => cases h; exact .triggering
    | _ => cases h
  | _ => cases kind <;> cases h

end Registry

/-- The contents after a container was terminated with all that is within it; at
    the top level the tokens of its workflow instance are gone too. -/
def Contents.terminate (c : Contents) (key : Key) (value : RecordValue) : Contents :=
  let nested := (Store.removeTree ⟨c, some []⟩ key).2.contents
  if value.hasScope then nested else nested.setTokens value.instanceKey []

namespace Engine

/-! ## What a record can do -/

section Relations

variable (e : Engine)

/-- What processing a record changes, and what it emits. -/
inductive Effect (c : Contents) (r : Record) : Contents → Option PendingRecord → Prop where
  /-- An event leaves a token and activates the container that declares it. -/
  | occurred {w : Workflow} {el : Element} {scope : Container} :
      e.Finds r w el → el.kind = .startEvent → r.intent = .eventOccurred →
      w.flowScopeOf? r.value.elementId = some scope →
      Effect c r
        (c.setTokens r.instanceKey
          (c.tokensOf r.instanceKey ++ [⟨r.key, r.value.withInstance r.key⟩]))
        (some (.followUp .elementActivating
          { r.value.withInstance r.key with elementId := scope.id } r.position))
  /-- A container is tracked. -/
  | activating {w : Workflow} {el : Element} :
      e.Finds r w el → el.kind.isContainer = true → r.intent = .elementActivating →
      Effect c r
        (c.setInstance r.key
          (some ⟨r.key, r.value.scopeKey, r.instanceKey, r.value.elementId, .elementActivated⟩))
        (some ((PendingRecord.followUp .elementActivated (r.value.withInstance r.key)
          r.position).withKey r.key))
  /-- A container that is no longer tracked is not started. -/
  | untracked {w : Workflow} {scope : Container} :
      e.Finds r w (.container scope) → r.intent = .elementActivated →
        c.instance? r.key = none →
      Effect c r c none
  /-- A container starts with the start event that is declared first, if that
      one fires at once. -/
  | startedAtOnce {w : Workflow} {scope : Container} :
      e.Finds r w (.container scope) → r.intent = .elementActivated →
        c.instance? r.key ≠ none →
      scope.firstStartEvent.isNone = true →
      Effect c r c
        (some (.followUp .eventTriggering
          { r.value with elementId := scope.firstStartEvent.id, scopeKey := r.key } r.position))
  /-- Otherwise the oldest token of the workflow instance names the start event. -/
  | startedByToken {w : Workflow} {scope : Container} {t : Token} {ts : List Token} :
      e.Finds r w (.container scope) → r.intent = .elementActivated →
        c.instance? r.key ≠ none →
      scope.firstStartEvent.isNone = false → c.tokensOf r.value.instanceKey = t :: ts →
      Effect c r (c.setTokens r.value.instanceKey ts)
        (some (.followUp .eventTriggering
          { r.value with elementId := t.value.elementId, scopeKey := r.key } r.position))
  /-- A start event that is triggered is acknowledged. -/
  | triggering {w : Workflow} {el : Element} :
      e.Finds r w el → el.kind = .startEvent → r.intent = .eventTriggering →
      Effect c r c
        (some ((PendingRecord.followUp .eventTriggered r.value r.position).withKey r.key))
  /-- A container is terminated with all that is within it. -/
  | terminating {w : Workflow} {el : Element} :
      e.Finds r w el → el.kind.isContainer = true → r.intent = .elementTerminating →
      Effect c r (c.terminate r.key r.value)
        (some ((PendingRecord.followUp .elementTerminated r.value r.position).withKey r.key))

/-- Why a record contradicts the structure of its workflow. -/
inductive Fault (c : Contents) (r : Record) : String → Prop where
  /-- The workflow is not deployed. -/
  | undeployed : e.repository.get? r.value.workflowKey = none →
      Fault c r ("workflow " ++ toString r.value.workflowKey ++ " is not deployed")
  /-- The element is not part of the workflow. -/
  | unknownElement {w : Workflow} :
      e.repository.get? r.value.workflowKey = some w → w.element? r.value.elementId = none →
      Fault c r ("element is not part of workflow " ++ toString w.key)
  /-- No container declares the start event. -/
  | noScope {w : Workflow} {el : Element} :
      e.Finds r w el → el.kind = .startEvent → r.intent = .eventOccurred →
      w.flowScopeOf? r.value.elementId = none →
      Fault c r "start event has no enclosing scope"
  /-- An element of a container's kind is active that is no container. -/
  | notContainer {w : Workflow} {el : Element} :
      e.Finds r w el → el.kind.isContainer = true → r.intent = .elementActivated →
      el.asContainer? = none →
      Fault c r "element is not a flow element container"
  /-- A container can only be started by a token, and there is none. -/
  | noToken {w : Workflow} {scope : Container} :
      e.Finds r w (.container scope) → r.intent = .elementActivated →
        c.instance? r.key ≠ none →
      scope.firstStartEvent.isNone = false → c.tokensOf r.value.instanceKey = [] →
      Fault c r "scope has no none start event and no deferred token to start from"

/-- The ways in which the handling of a record ends, the state after it, and
    what is emitted. -/
inductive Outcome (s : PartitionState) (r : Record) :
    Handling × PartitionState × List PendingRecord → Prop where
  /-- The workflow instance is stopped. -/
  | blacklisted : s.isBlacklisted r.value.instanceKey = true →
      Outcome s r (.skipped .blacklisted, s, [])
  /-- No handler is responsible. -/
  | noHandler : s.isBlacklisted r.value.instanceKey = false → e.program? r = .ok none →
      Outcome s r (.skipped .noHandler, s, [])
  /-- The record fails, and its workflow instance is stopped. -/
  | failed {reason : String} : s.isBlacklisted r.value.instanceKey = false →
      Fault e s.contents r reason →
      Outcome s r
        (.failed (.invariantViolation r.value.instanceKey r.key r.value.elementId reason),
          s.addToBlacklist r.value.instanceKey, [])
  /-- The record is processed. -/
  | processed {c : Contents} {out : Option PendingRecord} :
      s.isBlacklisted r.value.instanceKey = false → Effect e s.contents r c out →
      Outcome s r (.processed, ⟨⟨c, none⟩, s.blacklist⟩, out.toList)

end Relations

/-! ## Every outcome is one of these -/

section Outcomes

variable {e : Engine} {s : PartitionState} {r : Record} {w : Workflow} {el : Element}

/-- A program that fails before it changes anything leaves the state alone and
    stops the workflow instance. -/
theorem transact_of_fail {program : Program Unit} {reason : String}
    (hclosed : s.store.inTransaction = false)
    (h : program.run (workspace s r) = (.error
      (.invariantViolation r.value.instanceKey r.key r.value.elementId reason), workspace s r)) :
    transact s r program = (.failed
      (.invariantViolation r.value.instanceKey r.key r.value.elementId reason),
        s.addToBlacklist r.value.instanceKey, []) := by
  have hbegin : s.begin.rollback = s := by
    obtain ⟨⟨contents, journal⟩, blacklist⟩ := s
    cases journal with
    | none => rfl
    | some us => cases hclosed
  unfold workspace at h
  unfold transact PartitionState.abort
  rw [h]
  show (_, s.begin.rollback.addToBlacklist r.value.instanceKey, _) = _
  rw [hbegin]

theorem outcome_eventOccurred (hclosed : s.store.inTransaction = false)
    (hfree : s.isBlacklisted r.value.instanceKey = false) (h : e.Finds r w el)
    (hkind : el.kind = .startEvent) (hintent : r.intent = .eventOccurred) :
    Outcome e s r (transact s r (Handler.eventOccurred ⟨r, w, el⟩)) := by
  cases hscope : w.flowScopeOf? r.value.elementId with
  | none =>
    have hprogram : Handler.eventOccurred ⟨r, w, el⟩ =
        .fail (.invariantViolation r.value.instanceKey r.key r.value.elementId
          "start event has no enclosing scope") := by
      unfold Handler.eventOccurred
      simp only [hscope]
      rfl
    rw [hprogram, transact_of_fail hclosed rfl]
    exact .failed hfree (.noScope h hkind hintent hscope)
  | some scope =>
    have hprocessed := Effect.occurred (c := s.contents) h hkind hintent hscope
    unfold Handler.eventOccurred
    simp only [hscope]
    exact .processed hfree hprocessed

theorem outcome_activateElement (hfree : s.isBlacklisted r.value.instanceKey = false)
    (h : e.Finds r w el) (hkind : el.kind.isContainer = true)
    (hintent : r.intent = .elementActivating) :
    Outcome e s r (transact s r (Handler.activateElement ⟨r, w, el⟩)) :=
  .processed hfree (.activating h hkind hintent)

theorem outcome_triggerEvent (hfree : s.isBlacklisted r.value.instanceKey = false)
    (h : e.Finds r w el) (hkind : el.kind = .startEvent) (hintent : r.intent = .eventTriggering) :
    Outcome e s r (transact s r (Handler.triggerEvent ⟨r, w, el⟩)) :=
  .processed hfree (.triggering h hkind hintent)

theorem outcome_terminateContainer (hfree : s.isBlacklisted r.value.instanceKey = false)
    (h : e.Finds r w el) (hkind : el.kind.isContainer = true)
    (hintent : r.intent = .elementTerminating) :
    Outcome e s r (transact s r (Handler.terminateContainer ⟨r, w, el⟩)) := by
  have hprocessed := Outcome.processed hfree (Effect.terminating (c := s.contents) h hkind hintent)
  unfold Contents.terminate at hprocessed
  unfold Handler.terminateContainer
  cases hscope : r.value.hasScope with
  | true =>
    simp only [hscope, if_true] at hprocessed ⊢
    exact hprocessed
  | false =>
    -- At the top level the tokens of the workflow instance go as well.
    simp only [hscope, Bool.false_eq_true, if_false] at hprocessed ⊢
    rw [← Store.removeTokens_contents] at hprocessed
    exact hprocessed

/-- The program of an active container, once its element is known to be one. -/
theorem outcome_startContainer {scope : Container} (hclosed : s.store.inTransaction = false)
    (hfree : s.isBlacklisted r.value.instanceKey = false) (h : e.Finds r w (.container scope))
    (hintent : r.intent = .elementActivated) :
    Outcome e s r (transact s r (Handler.triggerStartEvent ⟨r, w, .container scope⟩)) := by
  have hseen : (Action.inspect.perform (workspace s r)).1 = s.contents := rfl
  cases hinst : s.contents.instance? r.key with
  | none =>
    rw [transact_of_run (run_triggerStartEvent_untracked hinst)]
    exact .processed hfree (.untracked h hintent hinst)
  | some i =>
    have hsome : s.contents.instance? r.key ≠ none := by simp [hinst]
    cases hfirst : scope.firstStartEvent.isNone with
    | true =>
      have hstart : Handler.startElement ⟨r, w, .container scope⟩ scope s.contents =
          pure scope.firstStartEvent.id := by
        unfold Handler.startElement
        simp only [hfirst, if_true]
      have hrun : (Handler.triggerStartEvent ⟨r, w, .container scope⟩).run (workspace s r) =
          (.ok (), ⟨s.begin, ⟨r.position, [.followUp .eventTriggering
            { r.value with
              elementId := scope.firstStartEvent.id
              scopeKey := r.key } r.position]⟩⟩) := by
        rw [triggerStartEvent_container, Program.run_step]
        simp only [hseen, hinst, hstart]
        rfl
      rw [transact_of_run hrun]
      exact .processed hfree (.startedAtOnce h hintent hsome hfirst)
    | false =>
      cases htokens : s.contents.tokensOf r.value.instanceKey with
      | nil =>
        have hnone : s.contents.hasTokens r.value.instanceKey = false :=
          Bool.eq_false_iff.mpr fun htrue => Contents.hasTokens_iff.mp htrue htokens
        have hstart : Handler.startElement ⟨r, w, .container scope⟩ scope s.contents =
            .fail (.invariantViolation r.value.instanceKey r.key r.value.elementId
              "scope has no none start event and no deferred token to start from") := by
          unfold Handler.startElement
          simp only [hfirst, hnone]
          rfl
        have hrun : (Handler.triggerStartEvent ⟨r, w, .container scope⟩).run (workspace s r) =
            (.error (.invariantViolation r.value.instanceKey r.key r.value.elementId
              "scope has no none start event and no deferred token to start from"),
              workspace s r) := by
          rw [triggerStartEvent_container, Program.run_step]
          simp only [hseen, hinst, hstart]
          rfl
        rw [transact_of_fail hclosed hrun]
        exact .failed hfree (.noToken h hintent hsome hfirst htokens)
      | cons t ts =>
        rw [transact_of_run (run_triggerStartEvent_token hinst hfirst htokens)]
        exact .processed hfree (.startedByToken h hintent hsome hfirst htokens)

theorem outcome_triggerStartEvent (hclosed : s.store.inTransaction = false)
    (hfree : s.isBlacklisted r.value.instanceKey = false) (h : e.Finds r w el)
    (hkind : el.kind.isContainer = true) (hintent : r.intent = .elementActivated) :
    Outcome e s r (transact s r (Handler.triggerStartEvent ⟨r, w, el⟩)) := by
  cases hcontainer : el.asContainer? with
  | none =>
    have hrun : (Handler.triggerStartEvent ⟨r, w, el⟩).run (workspace s r) =
        (.error (.invariantViolation r.value.instanceKey r.key r.value.elementId
          "element is not a flow element container"), workspace s r) := by
      unfold Handler.triggerStartEvent StepContext.container
      simp only [hcontainer]
      rfl
    rw [transact_of_fail hclosed hrun]
    exact .failed hfree (.notContainer h hkind hintent hcontainer)
  | some scope =>
    cases el with
    | container scope' =>
      exact outcome_startContainer hclosed hfree h hintent
    | catchEvent ev => cases hcontainer
    | node id kind => cases hcontainer

/-- The program of a handler that is responsible has one of the outcomes. -/
theorem outcome_of_handler (hclosed : s.store.inTransaction = false)
    (hfree : s.isBlacklisted r.value.instanceKey = false) (h : e.Finds r w el) {handler : Handler}
    (hget : Registry.standard.get? ⟨el.kind, r.intent⟩ = some handler) :
    Outcome e s r (transact s r (handler ⟨r, w, el⟩)) := by
  have hstep := Registry.standardStep_of_get? hget
  generalize hkind : el.kind = kind at hstep
  generalize hintent : r.intent = intent at hstep
  cases hstep with
  | occurred => exact outcome_eventOccurred hclosed hfree h hkind hintent
  | triggering => exact outcome_triggerEvent hfree h hkind hintent
  | activating hcontainer => exact outcome_activateElement hfree h (hkind ▸ hcontainer) hintent
  | activated hcontainer =>
    exact outcome_triggerStartEvent hclosed hfree h (hkind ▸ hcontainer) hintent
  | terminating hcontainer =>
    exact outcome_terminateContainer hfree h (hkind ▸ hcontainer) hintent

/-- A record whose workflow or element does not exist fails before any handler. -/
theorem outcome_of_program?_error (hclosed : s.store.inTransaction = false)
    (hfree : s.isBlacklisted r.value.instanceKey = false) {reason : String}
    (hfault : Fault e s.contents r reason) :
    Outcome e s r
      (.failed (.invariantViolation r.value.instanceKey r.key r.value.elementId reason),
        s.abort (.invariantViolation r.value.instanceKey r.key r.value.elementId reason)
          r.value.instanceKey, []) := by
  have habort : s.abort (.invariantViolation r.value.instanceKey r.key r.value.elementId reason)
      r.value.instanceKey = s.addToBlacklist r.value.instanceKey := by
    show s.rollback.addToBlacklist r.value.instanceKey = _
    rw [PartitionState.rollback_of_closed hclosed]
  rw [habort]
  exact .failed hfree hfault

/-- **Every outcome of handling a record**, whatever is deployed and whatever the
    state holds. -/
theorem handle_outcome (hstd : e.registry = .standard) (hclosed : s.store.inTransaction = false)
    (r : Record) : Outcome e s r (e.handle s r) := by
  cases hlisted : s.isBlacklisted r.value.instanceKey with
  | true =>
    rw [handle_of_blacklisted hlisted]
    exact .blacklisted hlisted
  | false =>
    rw [handle_of_free hlisted]
    cases hworkflow : e.repository.get? r.value.workflowKey with
    | none =>
      have hprogram : e.program? r = .error (.invariantViolation r.value.instanceKey r.key
          r.value.elementId
          ("workflow " ++ toString r.value.workflowKey ++ " is not deployed")) := by
        unfold program?
        simp only [hworkflow]
      rw [hprogram]
      exact outcome_of_program?_error hclosed hlisted (.undeployed hworkflow)
    | some w =>
      cases helement : w.element? r.value.elementId with
      | none =>
        have hprogram : e.program? r = .error (.invariantViolation r.value.instanceKey r.key
            r.value.elementId ("element is not part of workflow " ++ toString w.key)) := by
          unfold program?
          simp only [hworkflow, helement]
        rw [hprogram]
        exact outcome_of_program?_error hclosed hlisted (.unknownElement hworkflow helement)
      | some el =>
        have hfinds : e.Finds r w el := ⟨hworkflow, helement⟩
        have hprogram := hfinds.program?_eq
        rw [hstd] at hprogram
        cases hget : Registry.standard.get? ⟨el.kind, r.intent⟩ with
        | none =>
          rw [hget] at hprogram
          rw [hprogram]
          exact .noHandler hlisted hprogram
        | some handler =>
          rw [hget] at hprogram
          rw [hprogram]
          exact outcome_of_handler hclosed hlisted hfinds hget

end Outcomes

end Engine

/-! ## Stopped workflow instances -/

/-- The record ended with an error that stops its workflow instance. -/
def Handling.isFatal : Handling → Bool
  | failed error => error.isFatal
  | _ => false

namespace Engine

section Stopped

variable {e : Engine} {s : PartitionState} {r : Record}
  {o : Handling × PartitionState × List PendingRecord}

/-- **Handling a record stops its workflow instance if it fails fatally, and no
    other one**; an unset key is never stopped. -/
theorem Outcome.isBlacklisted_iff (h : Outcome e s r o) (instanceKey : Key) :
    o.2.1.isBlacklisted instanceKey = true ↔
      s.isBlacklisted instanceKey = true ∨ instanceKey ≠ Key.unset ∧
        r.value.instanceKey = instanceKey ∧ o.1.isFatal = true := by
  cases h with
  | blacklisted => simp [Handling.isFatal]
  | noHandler => simp [Handling.isFatal]
  | failed =>
    simp [Handling.isFatal, EngineError.isFatal, PartitionState.isBlacklisted_addToBlacklist_iff]
  | processed => simp [Handling.isFatal, PartitionState.isBlacklisted]

/-- A record is passed over as one of a stopped instance only if it is one, and
    then nothing changes. -/
theorem Outcome.skipped_iff (h : Outcome e s r o) :
    o.1 = .skipped .blacklisted ↔ s.isBlacklisted r.value.instanceKey = true := by
  cases h with
  | blacklisted hlisted => exact ⟨fun _ => hlisted, fun _ => rfl⟩
  | noHandler hfree => simp [hfree]
  | failed hfree => simp [hfree]
  | processed hfree => simp [hfree]

end Stopped

end Engine

end WorkflowEngine
