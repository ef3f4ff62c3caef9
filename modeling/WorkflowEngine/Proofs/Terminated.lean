import WorkflowEngine.Proofs.Emission
import WorkflowEngine.Proofs.Removal

/-! # Terminated Scopes

    A container is terminated together with the instances within it. Their
    activations may still be in flight: records that were emitted before, and
    that are handled after. They start nothing, since a container is only
    started while it is tracked, and it is only tracked again by a record that
    activates it anew. Nothing is assumed about the records from outside.
-/

namespace WorkflowEngine

namespace Contents

variable {c : Contents} {key k : Key}

/-- The instances that go when a container is terminated. -/
def removedWith (c : Contents) (key : Key) : List ElementInstance :=
  (Store.removeTree ⟨c, some []⟩ key).1

theorem instance?_terminate (value : RecordValue) :
    (c.terminate key value).instance? k =
      (Store.removeTree ⟨c, some []⟩ key).2.contents.instance? k := by
  unfold terminate
  simp only
  split
  · rfl
  · rw [instance?_setTokens]

/-- The container is gone, and so is every instance that went with it. -/
theorem terminate_removed (hc : c.Keyed) (value : RecordValue)
    (hk : k = key ∨ ∃ i ∈ c.removedWith key, i.key = k) :
    (c.terminate key value).instance? k = none := by
  have hkeyed : Store.Keyed ⟨c, some []⟩ :=
    ⟨hc, fun us hus u hu => by cases hus; cases hu⟩
  rw [instance?_terminate]
  exact Store.removeTree_removed hkeyed hk

/-- Terminating a container tracks nothing. -/
theorem terminate_untracked (hc : c.Keyed) (value : RecordValue) (hk : c.instance? k = none) :
    (c.terminate key value).instance? k = none := by
  have hprunes : c.Prunes key (Store.removeTree ⟨c, some []⟩ key).2.contents :=
    Store.removeTree_prunes (s := ⟨c, some []⟩) hc key
  rw [instance?_terminate]
  rcases hprunes.instances k with hsame | ⟨hnone, -⟩
  · rw [hsame, hk]
  · exact hnone

end Contents

namespace Engine

variable {e : Engine} {id : PartitionId} {p q : Partition} {d : Key}

/-! ## One record -/

section Steps

variable {c c' : Contents} {r : Record} {x : PendingRecord} {s : PartitionState}
  {o : Handling × PartitionState × List PendingRecord}

/-- An instance is tracked under a key only by an activation with that key. -/
theorem Effect.stays_untracked (hc : c.Keyed) {out : Option PendingRecord} (h : Effect e c r c' out)
    (hd : c.instance? d = none) (hquiet : ¬ (r.intent = .elementActivating ∧ r.key = d)) :
    c'.instance? d = none := by
  -- Of all effects only an activation tracks anything.
  cases h with
  | occurred => rwa [Contents.instance?_setTokens]
  | activating _ _ hintent =>
    have hne : d ≠ r.key := fun heq => hquiet ⟨hintent, heq.symm⟩
    rwa [Contents.instance?_setInstance, if_neg hne]
  | untracked => exact hd
  | startedAtOnce => exact hd
  | startedByToken => rwa [Contents.instance?_setTokens]
  | triggering => exact hd
  | terminating => exact Contents.terminate_untracked hc r.value hd

/-- A start event is triggered in a container that is tracked. -/
theorem Effect.tracked_of_triggering (h : Effect e c r c' (some x))
    (hx : x.intent = .eventTriggering) :
    x.value.scopeKey = r.key ∧ c.instance? r.key ≠ none := by
  cases h with
  | occurred => cases hx
  | activating => cases hx
  | startedAtOnce _ _ htracked => exact ⟨rfl, htracked⟩
  | startedByToken _ _ htracked => exact ⟨rfl, htracked⟩
  | triggering => cases hx
  | terminating => cases hx

/-- A termination that is processed takes the container away with all that is
    within it. -/
theorem Effect.of_terminating {out : Option PendingRecord} (h : Effect e c r c' out)
    (hintent : r.intent = .elementTerminating) : c' = c.terminate r.key r.value := by
  have hne : ∀ {i : Intent}, r.intent = i → i = .elementTerminating :=
    fun hi => hi.symm.trans hintent
  cases h with
  | occurred _ _ hi => cases hne hi
  | activating _ _ hi => cases hne hi
  | untracked _ hi => cases hne hi
  | startedAtOnce _ hi => cases hne hi
  | startedByToken _ hi => cases hne hi
  | triggering _ _ hi => cases hne hi
  | terminating => rfl

theorem Outcome.stays_untracked (hc : s.contents.Keyed) (h : Outcome e s r o)
    (hd : s.contents.instance? d = none)
    (hquiet : ¬ (r.intent = .elementActivating ∧ r.key = d ∧ o.1 = .processed)) :
    o.2.1.contents.instance? d = none := by
  cases h with
  | blacklisted => exact hd
  | noHandler => exact hd
  | failed =>
    show (s.addToBlacklist r.value.instanceKey).store.contents.instance? d = none
    rw [PartitionState.addToBlacklist_store]
    exact hd
  | processed _ heffect =>
    exact heffect.stays_untracked hc hd fun h => hquiet ⟨h.1, h.2, rfl⟩

theorem Outcome.not_triggering (h : Outcome e s r o) (hd : s.contents.instance? d = none)
    (hx : x ∈ o.2.2) (hintent : x.intent = .eventTriggering) : x.value.scopeKey ≠ d := by
  obtain ⟨c', heffect⟩ := h.emitted hx
  obtain ⟨hscope, htracked⟩ := heffect.tracked_of_triggering hintent
  rintro rfl
  rw [hscope] at hd
  exact htracked hd

end Steps

/-! ## Runs -/

theorem Reaches.formed {allowed : Log → PendingRecord → Prop} (h : Reaches e allowed id p) :
    p.processor.state.Formed ∧ p.processor.state.store.inTransaction = false := by
  induction h with
  | start => exact ⟨.empty, rfl⟩
  | append _ _ ih => exact ih
  | next _ ho ih =>
    obtain ⟨r, -, rfl⟩ := processNext_eq_some_iff.mp ho
    exact ⟨handle_formed ih.1 r, handle_closed ih.2 r⟩

theorem Reaches.keyed {allowed : Log → PendingRecord → Prop} (h : Reaches e allowed id p) :
    p.processor.state.contents.Keyed :=
  h.formed.1.keyed.contents

theorem Reaches.outcome {allowed : Log → PendingRecord → Prop} (h : Reaches e allowed id p)
    (hstd : e.registry = .standard) (r : Record) :
    Outcome e p.processor.state r (e.handle p.processor.state r) :=
  handle_outcome hstd h.formed.2 r

/-- How a run goes on: records are appended from outside, and the next record is
    processed, in any order. The list tells which records were handled, and how
    that ended. -/
inductive Continues (e : Engine) (p : Partition) :
    List (Record × Handling) → Partition → Prop where
  | start : Continues e p [] p
  | append {q : Partition} {handled : List (Record × Handling)} (x : PendingRecord) :
      Continues e p handled q → Continues e p handled (q.append x)
  | next {q : Partition} {handled : List (Record × Handling)} {r : Record}
      {o : Handling × Partition} :
      Continues e p handled q → q.log.read? (q.processor.lastProcessed + 1) = some r →
      e.processNext q = some o → Continues e p (handled ++ [(r, o.1)]) o.2

theorem Continues.reaches {handled : List (Record × Handling)} (h : Continues e p handled q)
    (hp : Reaches e (fun _ _ => True) id p) : Reaches e (fun _ _ => True) id q := by
  induction h with
  | start => exact hp
  | append x _ ih => exact ih.append trivial
  | next _ _ ho ih => exact ih.next ho

/-- No container is tracked under a key while no activation with it is
    processed. -/
theorem Continues.stays_untracked (hstd : e.registry = .standard)
    {handled : List (Record × Handling)} (h : Continues e p handled q)
    (hp : Reaches e (fun _ _ => True) id p)
    (hd : p.processor.state.contents.instance? d = none)
    (hquiet : ∀ x ∈ handled,
      ¬ (x.1.intent = .elementActivating ∧ x.1.key = d ∧ x.2 = .processed)) :
    q.processor.state.contents.instance? d = none := by
  induction h with
  | start => exact hd
  | append x _ ih => exact ih hquiet
  | @next q handled r o hbefore hr ho ih =>
    obtain ⟨hbefore', hnow⟩ := List.forall_mem_append.mp hquiet
    have hnone := ih hbefore'
    have hq := hbefore.reaches hp
    rw [processNext_of_read? hr] at ho
    cases ho
    exact (hq.outcome hstd r).stays_untracked hq.keyed hnone (hnow _ (List.mem_singleton_self _))

/-- What processing a record appends was emitted while it was handled. -/
theorem exists_emitted {o : Handling × Partition} (ho : e.processNext q = some o) {x : Record}
    (hx : x ∈ o.2.log.records.drop q.log.lastPosition) :
    ∃ r, ∃ y ∈ (e.handle q.processor.state r).2.2, y.Becomes x := by
  obtain ⟨r, -, rfl⟩ := processNext_eq_some_iff.mp ho
  rw [after_log, Log.appendAll_records, Log.lastPosition, List.drop_left] at hx
  exact ⟨r, Log.exists_of_become (q.log.entries_become _) hx⟩

/-- **A terminated scope never starts.** Once a container was terminated, no
    start event is triggered in it, nor in a container that went with it, before
    another activation with the same key is processed; until then nothing is
    tracked under that key. -/
theorem terminated_never_starts (hstd : e.registry = .standard)
    (hrun : Reaches e (fun _ _ => True) id p) {r : Record}
    (hr : p.log.read? (p.processor.lastProcessed + 1) = some r)
    (hintent : r.intent = .elementTerminating) {p' : Partition}
    (hterminated : e.processNext p = some (.processed, p'))
    (hd : d = r.key ∨ ∃ i ∈ p.processor.state.contents.removedWith r.key, i.key = d)
    {handled : List (Record × Handling)} (hlater : Continues e p' handled q)
    (hquiet : ∀ x ∈ handled,
      ¬ (x.1.intent = .elementActivating ∧ x.1.key = d ∧ x.2 = .processed)) :
    q.processor.state.contents.instance? d = none ∧
      ∀ o, e.processNext q = some o → ∀ x ∈ o.2.log.records.drop q.log.lastPosition,
        x.intent = .eventTriggering → x.value.scopeKey ≠ d := by
  have hgone : p'.processor.state.contents.instance? d = none := by
    have houtcome := hrun.outcome hstd r
    rw [processNext_of_read? hr] at hterminated
    obtain ⟨hprocessed, rfl⟩ := Prod.mk.inj (Option.some.inj hterminated)
    rw [after_state]
    -- It was processed, so it had its effect.
    generalize e.handle p.processor.state r = o at houtcome hprocessed
    cases houtcome with
    | blacklisted => cases hprocessed
    | noHandler => cases hprocessed
    | failed => cases hprocessed
    | processed _ heffect =>
      obtain rfl := heffect.of_terminating hintent
      exact Contents.terminate_removed hrun.keyed r.value hd
  have hrun' : Reaches e (fun _ _ => True) id p' := hrun.next hterminated
  have hnone := hlater.stays_untracked hstd hrun' hgone hquiet
  refine ⟨hnone, ?_⟩
  intro o ho x hx htriggering
  -- A start event is only triggered in a container that is tracked, and this one is not.
  obtain ⟨s, y, hy, hbecomes⟩ := exists_emitted ho hx
  rw [hbecomes.value]
  refine ((hlater.reaches hrun').outcome hstd s).not_triggering hnone hy ?_
  rw [← hbecomes.intent, htriggering]

/-- A process is active with another one within it, and the outer one is about to
    be terminated. That they are active is still in flight. -/
def aboutToTerminate : Partition :=
  let value := { OrderProcess.value Key.unset with elementId := OrderProcess.scope.id }
  let outer := (Partition.fresh 1).append (.external .elementActivating value)
  let key := (recordAt outer 1).key
  let inner := outer.append (.external .elementActivating { value with scopeKey := key })
  let last := inner.append ((PendingRecord.external .elementTerminating value).withKey key)
  (OrderProcess.engine.drain 2 last).2

/-- The outer process was terminated, and that it is active is handled. -/
def outerTerminated : Partition :=
  let p := OrderProcess.engine.after aboutToTerminate (recordAt aboutToTerminate 3)
  OrderProcess.engine.after p (recordAt p 4)

/-- The process within one that is terminated does not start either, although
    the next record tells that it is active. -/
theorem inner_process_never_starts :
    Reaches OrderProcess.engine (fun _ _ => True) 1 aboutToTerminate ∧
      (recordAt aboutToTerminate 3).intent = .elementTerminating ∧
      (recordAt aboutToTerminate 2).key ≠ (recordAt aboutToTerminate 3).key ∧
      (recordAt outerTerminated 5).intent = .elementActivated ∧
      (recordAt outerTerminated 5).key = (recordAt aboutToTerminate 2).key ∧
      ∃ o, OrderProcess.engine.processNext outerTerminated = some o ∧
        ∀ x ∈ o.2.log.records.drop outerTerminated.log.lastPosition,
          x.intent = .eventTriggering →
            x.value.scopeKey ≠ (recordAt aboutToTerminate 2).key := by
  have hrun : Reaches OrderProcess.engine (fun _ _ => True) 1 aboutToTerminate :=
    (((Reaches.start.append trivial).append trivial).append trivial).drain 2
  have hr : aboutToTerminate.log.read? 3 = some (recordAt aboutToTerminate 3) := by decide +kernel
  have hterminated : OrderProcess.engine.processNext aboutToTerminate =
      some (.processed,
        OrderProcess.engine.after aboutToTerminate (recordAt aboutToTerminate 3)) := by
    decide +kernel
  have hwithin : ∃ i ∈ aboutToTerminate.processor.state.contents.removedWith
      (recordAt aboutToTerminate 3).key, i.key = (recordAt aboutToTerminate 2).key := by
    decide +kernel
  have hlater : Continues OrderProcess.engine
      (OrderProcess.engine.after aboutToTerminate (recordAt aboutToTerminate 3))
      [(recordAt outerTerminated 4, .processed)] outerTerminated :=
    Continues.start.next (o := (.processed, outerTerminated)) (by decide +kernel)
      (by decide +kernel)
  obtain ⟨-, hnever⟩ := terminated_never_starts rfl hrun hr (by decide +kernel) hterminated
    (.inr hwithin) hlater (by decide +kernel)
  have hnext : (OrderProcess.engine.processNext outerTerminated).isSome := by decide +kernel
  obtain ⟨o, ho⟩ := Option.isSome_iff_exists.mp hnext
  exact ⟨hrun, by decide +kernel, by decide +kernel, by decide +kernel, by decide +kernel, o, ho,
    hnever o ho⟩

end Engine

end WorkflowEngine
