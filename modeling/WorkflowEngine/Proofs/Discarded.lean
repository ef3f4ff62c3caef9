import WorkflowEngine.Proofs.PlainQueues
import WorkflowEngine.Proofs.SharedStarts
import WorkflowEngine.Proofs.Terminated

/-! # Tokens That Go With a Container

    The token of an event waits in the queue of its workflow instance, beside the
    tokens of all other events there, until the container is active that the event
    activates. When a container is terminated, whole queues are emptied
    (`Contents.Discards`): those under its key and under the keys of the
    instances that go with it, and at the top level the one of its workflow
    instance.

    ### Main statements

    * `terminated_drops_tokens`: the tokens in these queues go, with them those that
      wait for a container at the top level that is terminated; and the tokens in
      other queues stay that wait for containers which are tracked on.
    * `terminated_root_drops_others`: tokens of other containers may go as well, and a
      token may stay whose container goes.
-/

namespace WorkflowEngine

namespace Contents

variable {c : Contents} {key scope : Key} {value : RecordValue}

/-- The scopes whose tokens go when a container is terminated: the container,
    the instances that go with it, and at the top level its workflow instance. -/
def Discards (c : Contents) (key : Key) (value : RecordValue) (scope : Key) : Prop :=
  scope = key ∨ scope ∈ Store.keysOf (c.removedWith key) ∨
    value.hasScope = false ∧ scope = value.instanceKey

instance (c : Contents) (key : Key) (value : RecordValue) (scope : Key) :
    Decidable (c.Discards key value scope) :=
  inferInstanceAs (Decidable (_ ∨ _ ∨ _ ∧ _))

/-- **Terminating a container empties these queues and leaves all others.** -/
theorem tokensOf_terminate (hc : c.Keyed) (key : Key) (value : RecordValue) (scope : Key) :
    (c.Discards key value scope → (c.terminate key value).tokensOf scope = []) ∧
      (¬c.Discards key value scope →
        (c.terminate key value).tokensOf scope = c.tokensOf scope) := by
  have htree : (Store.removeTree ⟨c, some []⟩ key).2.contents.tokensOf scope =
      if scope = key ∨ scope ∈ Store.keysOf (c.removedWith key) then [] else c.tokensOf scope :=
    Store.tokensOf_removeTree (s := ⟨c, some []⟩) hc key scope
  unfold Discards terminate
  cases hscope : value.hasScope with
  | true =>
    simp only [if_true, htree]
    constructor
    · rintro (h | h | ⟨h, -⟩)
      · exact if_pos (.inl h)
      · exact if_pos (.inr h)
      · cases h
    · exact fun h => if_neg fun h' => h (h'.imp_right .inl)
  | false =>
    simp only [Bool.false_eq_true, if_false, tokensOf_setTokens, htree]
    constructor
    · rintro (h | h | ⟨-, h⟩)
      · simp [h]
      · simp [h]
      · exact if_pos h
    · intro h
      rw [if_neg fun h' => h (.inr (.inr ⟨trivial, h'⟩)),
        if_neg fun h' => h (h'.imp_right .inl)]

end Contents

/-- The event has activated the container of the second record. -/
structure Log.Activates (l : Log) (ev a : Record) : Prop where
  /-- The event is a record of the log. -/
  event : ev ∈ l.records
  /-- It occurs. -/
  occurred : ev.intent = .eventOccurred
  /-- The container is activated by a follow-up of the event. -/
  followUp : a ∈ l.followUps ev.position
  /-- This is an activation. -/
  activating : a.intent = .elementActivating

instance (l : Log) (ev a : Record) : Decidable (l.Activates ev a) :=
  decidable_of_iff (ev ∈ l.records ∧ ev.intent = .eventOccurred ∧
      a ∈ l.followUps ev.position ∧ a.intent = .elementActivating)
    ⟨fun ⟨hevent, hoccurred, hfollow, hactivating⟩ =>
        ⟨hevent, hoccurred, hfollow, hactivating⟩,
      fun h => ⟨h.event, h.occurred, h.followUp, h.activating⟩⟩

namespace Engine

variable {e : Engine} {id : PartitionId} {p : Partition} {t ev a : Record}

/-! ## What a termination is about -/

namespace Traced

/-- A container belongs to the workflow instance of the event that activates it. -/
theorem instanceKey_of_activates (ht : e.Traced p) (hstd : e.registry = .standard)
    (h : p.log.Activates ev a) : a.value.instanceKey = ev.instanceKey := by
  obtain ⟨ha, hsource⟩ := Log.mem_followUps.mp h.followUp
  obtain ⟨s, hs, hpos, hemits⟩ := ht.exact.emits hstd ha hsource
  obtain rfl : s = ev := ht.exact.numbered.eq_of_position hs h.event hpos
  obtain ⟨w, scope, -, -, -, hvalue⟩ := hemits.of_activating h.activating
  rw [hvalue]
  rfl

/-- A termination carries the key and the value of an activation. -/
theorem of_terminating (ht : e.Traced p) (hstd : e.registry = .standard)
    (hmem : t ∈ p.log.records) (hintent : t.intent = .elementTerminating) :
    ∃ a ∈ p.log.records, a.intent = .elementActivating ∧ t.key = a.key ∧
      t.value = a.value := by
  cases hsource : t.sourcePosition with
  | none =>
    obtain ⟨x, hx, hbecomes⟩ := ht.external t hmem hsource
    have hxintent := hbecomes.intent.symm.trans hintent
    cases hx with
    | event => cases hxintent
    | activation => cases hxintent
    | termination ha haintent => exact ⟨_, ha, haintent, hbecomes.key _ rfl, hbecomes.value⟩
  | some q =>
    -- No termination is emitted.
    obtain ⟨s, -, -, hemits⟩ := ht.exact.emits hstd hmem hsource
    cases hemits with
    | activating _ _ _ hi => cases hi.symm.trans hintent
    | activated _ hi => cases hi.symm.trans hintent
    | triggering _ hi => cases hi.symm.trans hintent
    | triggered _ _ hi => cases hi.symm.trans hintent
    | terminated _ hi => cases hi.symm.trans hintent

/-- The workflow instance of a container that is terminated is that of its event. -/
theorem instanceKey_of_terminating (ht : e.Traced p) (hstd : e.registry = .standard)
    (hmem : t ∈ p.log.records) (hintent : t.intent = .elementTerminating)
    (h : p.log.Activates ev a) (hkey : a.key = t.key) : ev.instanceKey = t.value.instanceKey := by
  obtain ⟨b, hb, hbintent, hbkey, hvalue⟩ := ht.of_terminating hstd hmem hintent
  obtain ⟨ha, -⟩ := Log.mem_followUps.mp h.followUp
  -- The key was drawn for one activation alone.
  obtain rfl : a = b := ht.drawn.distinct a ha b hb (by rw [h.activating]; rfl)
    (by rw [hbintent]; rfl) (hkey.trans hbkey)
  rw [hvalue, ht.instanceKey_of_activates hstd h]

end Traced

/-- The token of an event waits in the workflow instance of the event only. -/
theorem Settled.scope_of_token (h : e.Settled p) (ht : e.Traced p) (hev : ev ∈ p.log.records)
    (hintent : ev.intent = .eventOccurred) {scope : Key} {token : Token}
    (htoken : token ∈ p.processor.state.contents.tokensOf scope) (hindex : token.index = ev.key) :
    scope = ev.instanceKey := by
  obtain ⟨ev', hev', -, hintent', hscope, rfl⟩ := h.deferred scope token htoken
  obtain rfl : ev' = ev := ht.drawn.distinct ev' hev' ev hev (by rw [hintent']; rfl)
    (by rw [hintent]; rfl) hindex
  exact hscope.symm

/-- A termination is processed unless its workflow instance is stopped, and it
    takes the container away with all that is within it. -/
theorem Traced.terminating_processed (ht : e.Traced p) (hdep : e.repository.Deployed)
    (hstd : e.registry = .standard) (hr : p.log.read? (p.processor.lastProcessed + 1) = some t)
    (hintent : t.intent = .elementTerminating)
    (hfree : p.processor.state.isBlacklisted t.value.instanceKey = false) :
    ∃ p', e.processNext p = some (.processed, p') ∧
      p'.processor.state.contents = p.processor.state.contents.terminate t.key t.value := by
  have hmem : t ∈ p.log.records := (ht.exact.numbered.read?_eq_some_iff.mp hr).1
  obtain ⟨a, ha, haintent, -, hvalue⟩ := ht.of_terminating hstd hmem hintent
  obtain ⟨scope, htargets⟩ := ht.targets hstd ha (.inl haintent)
  obtain ⟨w, hfinds⟩ := Traced.finds_of_targets hdep htargets hvalue
  have houtcome := ht.exact.outcome hstd t
  refine ⟨e.after p t, ?_⟩
  rw [processNext_of_read? hr, after_state]
  generalize e.handle p.processor.state t = o at houtcome
  cases houtcome with
  | blacklisted hlisted =>
    rw [hfree] at hlisted
    cases hlisted
  | noHandler _ hprogram =>
    have hkind : (Element.container scope).kind = scope.kind := rfl
    rw [hfinds.program?_eq, hstd, hkind, hintent,
      Registry.standard_terminating scope.isContainer] at hprogram
    cases hprogram
  | failed _ hfault =>
    cases hfault with
    | undeployed hnone => cases hnone.symm.trans hfinds.workflow
    | unknownElement hw hnone =>
      obtain rfl := Option.some.inj (hw.symm.trans hfinds.workflow)
      cases hnone.symm.trans hfinds.element
    | noScope _ _ hi => cases hi.symm.trans hintent
    | notContainer _ _ hi => cases hi.symm.trans hintent
    | noToken _ hi => cases hi.symm.trans hintent
  | processed _ heffect =>
    exact ⟨rfl, heffect.of_terminating hintent⟩

/-! ## Whose tokens go -/

/-- **Terminating a container empties the queues that it discards.** Unless its
    workflow instance is stopped, the termination is processed. Then no token is
    left of an event that has activated the container or an instance that goes
    with it, if the container is the one that the event has activated, at the top
    level, or if the event waits in one of these queues. The token of an event
    stays that waits in another queue, and whose container is tracked on. -/
theorem terminated_drops_tokens (hdep : e.repository.Deployed) (hstd : e.registry = .standard)
    (h : Reaches e (Addressed e.repository) id p)
    (hr : p.log.read? (p.processor.lastProcessed + 1) = some t)
    (hintent : t.intent = .elementTerminating)
    (hfree : p.processor.state.isBlacklisted t.value.instanceKey = false) :
    ∃ p', e.processNext p = some (.processed, p') ∧
      (∀ scope, p.processor.state.contents.Discards t.key t.value scope →
        p'.processor.state.contents.tokensOf scope = []) ∧
      (∀ ev a, p.log.Activates ev a →
        a.key = t.key ∨ a.key ∈ Store.keysOf (p.processor.state.contents.removedWith t.key) →
        a.key = t.key ∧ t.value.hasScope = false ∨
          p.processor.state.contents.Discards t.key t.value ev.instanceKey →
        ∀ scope, ∀ token ∈ p'.processor.state.contents.tokensOf scope,
          token.index ≠ ev.key) ∧
      ∀ ev a, p.log.Activates ev a → p'.processor.state.contents.instance? a.key ≠ none →
        ¬p.processor.state.contents.Discards t.key t.value ev.instanceKey →
        ∀ scope, ∀ token ∈ p.processor.state.contents.tokensOf scope, token.index = ev.key →
          token ∈ p'.processor.state.contents.tokensOf scope := by
  have ht := h.traced hstd
  have hsettled := h.settled hdep hstd
  have hmem : t ∈ p.log.records := (ht.exact.numbered.read?_eq_some_iff.mp hr).1
  obtain ⟨p', ho, hcontents⟩ := ht.terminating_processed hdep hstd hr hintent hfree
  have hqueues := Contents.tokensOf_terminate h.keyed t.key t.value
  rw [← hcontents] at hqueues
  refine ⟨p', ho, fun scope => (hqueues scope).1, ?_, ?_⟩
  · intro ev a hactivates _ hgoes scope token htoken hindex
    have hdiscards : p.processor.state.contents.Discards t.key t.value ev.instanceKey := by
      rcases hgoes with ⟨hkey, hroot⟩ | hdiscards
      · exact .inr (.inr ⟨hroot,
          ht.instanceKey_of_terminating hstd hmem hintent hactivates hkey⟩)
      · exact hdiscards
    by_cases hscope : p.processor.state.contents.Discards t.key t.value scope
    · rw [(hqueues scope).1 hscope] at htoken
      cases htoken
    · -- The token waited there before, so this is the workflow instance of its event.
      rw [(hqueues scope).2 hscope] at htoken
      have heq := hsettled.scope_of_token ht hactivates.event hactivates.occurred htoken hindex
      exact hscope (heq ▸ hdiscards)
  · intro ev a hactivates _ hkept scope token htoken hindex
    have heq := hsettled.scope_of_token ht hactivates.event hactivates.occurred htoken hindex
    rw [(hqueues scope).2 (heq ▸ hkept)]
    exact htoken

/-! ## Orders that share workflow instances and scopes -/

/-- An order in the given workflow instance and scope. -/
def scopedOrder (instanceKey scopeKey : Key) : PendingRecord :=
  .external .eventOccurred { OrderProcess.value instanceKey with scopeKey }

/-- Five orders whose processes are being activated. The second and the third one
    are within the process of the first one, the third one in another workflow
    instance; the fourth one is beside the first one in its workflow instance, and
    the fifth one in a workflow instance of its own. -/
def mixedOrders : Partition :=
  let inner := Key.encode 1 6
  (OrderProcess.engine.drain 5
    ((((((Partition.fresh 1).append (scopedOrder 3 Key.unset)).append (scopedOrder 3 inner)).append
      (scopedOrder 5 inner)).append (scopedOrder 3 Key.unset)).append (scopedOrder 4 Key.unset))).2

/-- All five processes are tracked and none of them is started. The next record
    terminates the process of one of the orders. -/
def mixedTermination (order : Nat) : Partition :=
  (OrderProcess.engine.drain 5 (mixedOrders.append
    ((PendingRecord.external .elementTerminating (recordAt mixedOrders (order + 5)).value).withKey
      (recordAt mixedOrders (order + 5)).key))).2

theorem reaches_mixedTermination (order : Nat)
    (h : mixedOrders.log.Activates (recordAt mixedOrders order)
      (recordAt mixedOrders (order + 5))) :
    Reaches OrderProcess.engine (EventDriven OrderProcess.repository) 1
      (mixedTermination order) := by
  have horder : ∀ l instanceKey scopeKey,
      EventDriven OrderProcess.repository l (scopedOrder instanceKey scopeKey) := by
    intro l instanceKey scopeKey
    obtain ⟨hdeployed, hdeclared, hnamed, hkind, hfirst⟩ := OrderProcess.awaits instanceKey
    exact .event ⟨hdeployed, hdeclared, hnamed, hkind, hfirst⟩
  have horders : Reaches OrderProcess.engine (EventDriven OrderProcess.repository) 1 mixedOrders :=
    (((((Reaches.start.append (horder _ _ _)).append (horder _ _ _)).append (horder _ _ _)).append
      (horder _ _ _)).append (horder _ _ _)).drain 5
  exact (horders.append (.termination (Log.mem_followUps.mp h.followUp).1 h.activating)).drain 5

/-- With the process of the first order all tokens of its workflow instance go, and
    the one of the fifth order stays. -/
theorem terminated_drops_tokens_orders :
    Reaches OrderProcess.engine (Addressed OrderProcess.repository) 1 (mixedTermination 1) ∧
      (recordAt (mixedTermination 1) 11).intent = .elementTerminating ∧
      ∃ p', OrderProcess.engine.processNext (mixedTermination 1) = some (.processed, p') ∧
        p'.processor.state.contents.tokensOf 3 = [] ∧
        (recordAt (mixedTermination 1) 5).token ∈ p'.processor.state.contents.tokensOf 4 := by
  have hrun := (reaches_mixedTermination 1 (by decide +kernel)).addressed
  have hintent : (recordAt (mixedTermination 1) 11).intent = .elementTerminating := by
    decide +kernel
  obtain ⟨p', ho, hempty, -, hkept⟩ := terminated_drops_tokens OrderProcess.deployed rfl hrun
    (by decide +kernel) hintent (by decide +kernel)
  have hends : OrderProcess.engine.processNext (mixedTermination 1) = some (.processed,
      OrderProcess.engine.after (mixedTermination 1) (recordAt (mixedTermination 1) 11)) := by
    decide +kernel
  obtain rfl := (Prod.mk.inj (Option.some.inj (hends.symm.trans ho))).2
  have hfifth : (mixedTermination 1).log.Activates (recordAt (mixedTermination 1) 5)
      (recordAt (mixedTermination 1) 10) := by
    decide +kernel
  refine ⟨hrun, hintent, _, ho, hempty 3 (by decide +kernel), ?_⟩
  exact hkept _ _ hfifth (by decide +kernel) (by decide +kernel) 4 _ (by decide +kernel) rfl

/-- No token is left that waits to start the container of a termination or an
    instance that goes with it. -/
def DropsOwn (p p' : Partition) (t : Record) : Prop :=
  ∀ ev a, p.log.Activates ev a →
    a.key = t.key ∨ a.key ∈ Store.keysOf (p.processor.state.contents.removedWith t.key) →
    ∀ scope, ∀ token ∈ p'.processor.state.contents.tokensOf scope, token.index ≠ ev.key

/-- All tokens are left that wait to start containers which are tracked on. -/
def KeepsOthers (p p' : Partition) : Prop :=
  ∀ ev a, p.log.Activates ev a → p'.processor.state.contents.instance? a.key ≠ none →
    ∀ scope, ∀ token ∈ p.processor.state.contents.tokensOf scope, token.index = ev.key →
      token ∈ p'.processor.state.contents.tokensOf scope

/-- The next record terminates a container, and it is processed. -/
structure Terminates (e : Engine) (p : Partition) (t : Record) (p' : Partition) : Prop where
  /-- The record is the next one. -/
  next : p.log.read? (p.processor.lastProcessed + 1) = some t
  /-- It is a termination. -/
  intent : t.intent = .elementTerminating
  /-- It is processed. -/
  processed : e.processNext p = some (.processed, p')

/-- Terminating the process of the first order takes the token of the fourth one,
    whose process is tracked on, and leaves the one of the third order, whose
    process goes. Terminating the process of the second order, which is within
    another one, leaves the token of this order. -/
theorem terminated_root_drops_others :
    OrderProcess.repository.Deployed ∧
      (Reaches OrderProcess.engine (EventDriven OrderProcess.repository) 1 (mixedTermination 1) ∧
        ∃ t p', Terminates OrderProcess.engine (mixedTermination 1) t p' ∧
          ¬DropsOwn (mixedTermination 1) p' t ∧ ¬KeepsOthers (mixedTermination 1) p') ∧
      (Reaches OrderProcess.engine (EventDriven OrderProcess.repository) 1 (mixedTermination 2) ∧
        ∃ t p', Terminates OrderProcess.engine (mixedTermination 2) t p' ∧
          ¬DropsOwn (mixedTermination 2) p' t) := by
  have hterminates : ∀ order, order = 1 ∨ order = 2 →
      Terminates OrderProcess.engine (mixedTermination order) (recordAt (mixedTermination order) 11)
        (OrderProcess.engine.after (mixedTermination order)
          (recordAt (mixedTermination order) 11)) := by
    rintro order (rfl | rfl)
    · exact ⟨by decide +kernel, by decide +kernel, by decide +kernel⟩
    · exact ⟨by decide +kernel, by decide +kernel, by decide +kernel⟩
  refine ⟨OrderProcess.deployed, ⟨reaches_mixedTermination 1 (by decide +kernel), _, _,
    hterminates 1 (.inl rfl), ?_, ?_⟩, ⟨reaches_mixedTermination 2 (by decide +kernel), _, _,
    hterminates 2 (.inr rfl), ?_⟩⟩
  · intro hdrops
    exact hdrops (recordAt (mixedTermination 1) 3) (recordAt (mixedTermination 1) 8)
      (by decide +kernel) (by decide +kernel) 5 (recordAt (mixedTermination 1) 3).token
      (by decide +kernel) rfl
  · intro hkeeps
    have hkept := hkeeps (recordAt (mixedTermination 1) 4) (recordAt (mixedTermination 1) 9)
      (by decide +kernel) (by decide +kernel) 3 (recordAt (mixedTermination 1) 4).token
      (by decide +kernel) rfl
    have hgone : (recordAt (mixedTermination 1) 4).token ∉
        (OrderProcess.engine.after (mixedTermination 1)
          (recordAt (mixedTermination 1) 11)).processor.state.contents.tokensOf 3 := by
      decide +kernel
    exact hgone hkept
  · intro hdrops
    exact hdrops (recordAt (mixedTermination 2) 2) (recordAt (mixedTermination 2) 7)
      (by decide +kernel) (by decide +kernel) 3 (recordAt (mixedTermination 2) 2).token
      (by decide +kernel) rfl

end Engine

end WorkflowEngine
