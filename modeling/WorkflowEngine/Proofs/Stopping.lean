import WorkflowEngine.Proofs.Terminated

/-! # Stopped Workflow Instances

    A fatal error stops the workflow instance that the failing record names, for
    good. Handling one record adds at most this instance to the stopped ones
    (`Engine.Outcome.isBlacklisted_iff`), and of a stopped one every record is passed
    over. What follows is about the list of the records that a run has handled,
    with how each of them ended; nothing is assumed about the records from outside.

    ### Main statement

    `stopped_iff_failed_fatally`: stopped are exactly the instances of which a
    record has failed fatally, and from this record on nothing is done or written
    for another one.
-/

namespace WorkflowEngine

namespace Engine

variable {e : Engine} {id : PartitionId} {p q : Partition}
  {handled later : List (Record × Handling)}

/-! ## Runs -/

/-- What a run does with its next record is one of the outcomes. -/
theorem Reaches.next_outcome {allowed : Log → PendingRecord → Prop} {r : Record}
    {o : Handling × Partition} (h : Reaches e allowed id p) (hstd : e.registry = .standard)
    (hr : p.log.read? (p.processor.lastProcessed + 1) = some r) (ho : e.processNext p = some o) :
    Outcome e p.processor.state r
      (o.1, o.2.processor.state, (e.handle p.processor.state r).2.2) := by
  rw [processNext_of_read? hr] at ho
  cases ho
  exact h.outcome hstd r

/-- A run that handles some records and then others is two runs. -/
theorem Continues.split (h : Continues e p (handled ++ later) q) :
    ∃ mid, Continues e p handled mid ∧ Continues e mid later q := by
  generalize hall : handled ++ later = all at h
  induction h generalizing later with
  | start =>
    obtain ⟨rfl, rfl⟩ := List.append_eq_nil_iff.mp hall
    exact ⟨p, .start, .start⟩
  | append x _ ih =>
    obtain ⟨mid, hfirst, hrest⟩ := ih hall
    exact ⟨mid, hfirst, hrest.append x⟩
  | @next q before r o hbefore hr ho ih =>
    rcases List.eq_nil_or_concat later with rfl | ⟨later, last, rfl⟩
    · rw [List.append_nil] at hall
      exact ⟨o.2, hall ▸ hbefore.next hr ho, .start⟩
    · rw [List.concat_eq_append, ← List.append_assoc] at hall
      obtain ⟨hinit, hlast⟩ := List.append_inj' hall rfl
      obtain ⟨mid, hfirst, hrest⟩ := ih hinit
      rw [List.concat_eq_append, hlast]
      exact ⟨mid, hfirst, hrest.next hr ho⟩

/-- The handled records are the first ones of the log. -/
theorem Continues.handled_eq (h : Continues e (.fresh id) handled q) :
    q.processor.lastProcessed ≤ q.log.lastPosition ∧
      handled.map Prod.fst = q.log.records.take q.processor.lastProcessed := by
  induction h with
  | start => exact ⟨Nat.le_refl _, rfl⟩
  | append x _ ih =>
    refine ⟨Nat.le_trans ih.1 ?_, ?_⟩
    · exact (Log.lastPosition_append _ x).symm ▸ Nat.le_succ _
    · exact ih.2.trans (Log.take_appendAll ih.1 [x]).symm
  | @next q handled r o _ hr ho ih =>
    rw [processNext_of_read? hr] at ho
    cases ho
    have hlt : q.processor.lastProcessed + 1 ≤ q.log.lastPosition :=
      (List.getElem?_eq_some_iff.mp hr).1
    refine ⟨?_, ?_⟩
    · rw [after_log, after_lastProcessed, Log.lastPosition_appendAll]
      exact Nat.le_trans hlt (Nat.le_add_right _ _)
    · rw [List.map_append, ih.2, after_log, after_lastProcessed, Log.take_appendAll hlt,
        Log.take_succ_of_read? hr]
      rfl

/-- A record of the workflow instance is among the handled ones that failed
    fatally. A record that names no instance stops none. -/
def FailedFatally (handled : List (Record × Handling)) (instanceKey : Key) : Prop :=
  instanceKey ≠ Key.unset ∧
    ∃ x ∈ handled, x.1.value.instanceKey = instanceKey ∧ x.2.isFatal = true

instance (handled : List (Record × Handling)) (instanceKey : Key) :
    Decidable (FailedFatally handled instanceKey) :=
  inferInstanceAs (Decidable (_ ∧ _))

theorem failedFatally_concat {x : Record × Handling} {instanceKey : Key} :
    FailedFatally (handled ++ [x]) instanceKey ↔ FailedFatally handled instanceKey ∨
      instanceKey ≠ Key.unset ∧ x.1.value.instanceKey = instanceKey ∧ x.2.isFatal = true := by
  unfold FailedFatally
  simp only [List.mem_append, List.mem_singleton, or_and_right, exists_or, exists_eq_left,
    and_or_left]

/-- **Stopped are the instances of which a record failed fatally**, besides those
    that were stopped before. -/
theorem Continues.isBlacklisted_iff (hstd : e.registry = .standard) (h : Continues e p handled q)
    (hp : Reaches e (fun _ _ => True) id p) (instanceKey : Key) :
    q.processor.state.isBlacklisted instanceKey = true ↔
      p.processor.state.isBlacklisted instanceKey = true ∨ FailedFatally handled instanceKey := by
  induction h with
  | start => simp [FailedFatally]
  | append x _ ih => exact ih
  | @next q handled r o hbefore hr ho ih =>
    have houtcome := (hbefore.reaches hp).next_outcome hstd hr ho
    rw [houtcome.isBlacklisted_iff, ih, failedFatally_concat, or_assoc]

/-- Of an instance that is stopped every record is passed over. -/
theorem Continues.skipped_of_stopped (hstd : e.registry = .standard) (h : Continues e p handled q)
    (hp : Reaches e (fun _ _ => True) id p) :
    ∀ y ∈ handled, p.processor.state.isBlacklisted y.1.value.instanceKey = true →
      y.2 = .skipped .blacklisted := by
  induction h with
  | start =>
    intro y hy
    cases hy
  | append x _ ih => exact ih
  | @next q handled r o hbefore hr ho ih =>
    intro y hy hstopped
    rcases List.mem_append.mp hy with hy | hy
    · exact ih y hy hstopped
    · obtain rfl := List.mem_singleton.mp hy
      have houtcome := (hbefore.reaches hp).next_outcome hstd hr ho
      -- It is still stopped when this record is handled.
      exact houtcome.skipped_iff.mpr ((hbefore.isBlacklisted_iff hstd hp _).mpr (.inl hstopped))

/-- Passed over as one of a stopped instance are only records of instances that
    are stopped in the end. -/
theorem Continues.stopped_of_skipped (hstd : e.registry = .standard) (h : Continues e p handled q)
    (hp : Reaches e (fun _ _ => True) id p) :
    ∀ y ∈ handled, y.2 = .skipped .blacklisted →
      q.processor.state.isBlacklisted y.1.value.instanceKey = true := by
  induction h with
  | start =>
    intro y hy
    cases hy
  | append x _ ih => exact ih
  | @next q handled r o hbefore hr ho ih =>
    intro y hy hskipped
    have houtcome := (hbefore.reaches hp).next_outcome hstd hr ho
    refine (houtcome.isBlacklisted_iff _).mpr (.inl ?_)
    rcases List.mem_append.mp hy with hy | hy
    · exact ih y hy hskipped
    · obtain rfl := List.mem_singleton.mp hy
      exact houtcome.skipped_iff.mp hskipped

/-- **A workflow instance is stopped by a fatal error, for good, and by nothing
    else**, whatever is appended from outside and however that is interleaved with
    the processing. The handled records are the first ones of the log. Stopped are
    exactly the instances of which one of them failed fatally, and behind it every
    other one is passed over; records that name no instance never are. The next
    record is passed over exactly if its instance is stopped. Then nothing changes
    but that it counts as handled, and else what is written has it as its source. -/
theorem stopped_iff_failed_fatally (hstd : e.registry = .standard)
    (hrun : Continues e (.fresh id) handled q) :
    handled.map Prod.fst = q.log.records.take q.processor.lastProcessed ∧
      (∀ instanceKey, q.processor.state.isBlacklisted instanceKey = true ↔
        FailedFatally handled instanceKey) ∧
      (∀ before x after, handled = before ++ x :: after → x.2.isFatal = true →
        x.1.value.instanceKey ≠ Key.unset →
          ∀ y ∈ after, y.1.value.instanceKey = x.1.value.instanceKey →
            y.2 = .skipped .blacklisted) ∧
      (∀ x ∈ handled, x.1.value.instanceKey = Key.unset → x.2 ≠ .skipped .blacklisted) ∧
      ∀ r, q.log.read? (q.processor.lastProcessed + 1) = some r →
        ∃ o, e.processNext q = some o ∧
          (o.1 = .skipped .blacklisted ↔ FailedFatally handled r.value.instanceKey) ∧
          (o.1 = .skipped .blacklisted →
            o.2 = ⟨q.log, ⟨q.processor.state, q.processor.lastProcessed + 1⟩⟩) ∧
          ∀ x ∈ o.2.log.records.drop q.log.lastPosition,
            x.sourcePosition = some r.position := by
  have hstart : Reaches e (fun _ _ => True) id (.fresh id) := .start
  have hstopped : ∀ instanceKey, q.processor.state.isBlacklisted instanceKey = true ↔
      FailedFatally handled instanceKey := by
    intro instanceKey
    rw [hrun.isBlacklisted_iff hstd hstart]
    exact or_iff_right fun h => by cases h
  refine ⟨hrun.handled_eq.2, hstopped, ?_, ?_, ?_⟩
  · rintro before x after rfl hfatal hset y hy hkey
    rw [List.append_cons] at hrun
    obtain ⟨mid, hfirst, hrest⟩ := hrun.split
    have hmid : mid.processor.state.isBlacklisted y.1.value.instanceKey = true := by
      refine (hfirst.isBlacklisted_iff hstd hstart _).mpr (.inr ?_)
      exact failedFatally_concat.mpr (.inr ⟨hkey ▸ hset, hkey.symm, hfatal⟩)
    exact hrest.skipped_of_stopped hstd (hfirst.reaches hstart) y hy hmid
  · intro x hx hunset hskipped
    have hlisted := hrun.stopped_of_skipped hstd hstart x hx hskipped
    exact ((hstopped _).mp hlisted).1 hunset
  · intro r hr
    have houtcome := (hrun.reaches hstart).outcome hstd r
    refine ⟨_, processNext_of_read? hr, houtcome.skipped_iff.trans (hstopped _), ?_, ?_⟩
    · intro hskipped
      rw [after, handle_of_blacklisted (houtcome.skipped_iff.mp hskipped)]
      rfl
    · intro x hx
      rw [after_log, Log.appendAll_records, Log.lastPosition, List.drop_left] at hx
      exact Log.entries_source (e.handle_source _ r) x hx

/-- An order of a workflow that is not deployed. -/
def misdirected (instanceKey : Key) : PendingRecord :=
  .external .eventOccurred { OrderProcess.value instanceKey with workflowKey := 8 }

/-- Two orders that fail, one of them without a workflow instance, and behind them
    an order of the other one's instance and one of another instance. -/
def failingOrders : Partition :=
  ((((Partition.fresh 1).append (misdirected 3)).append (misdirected Key.unset)).append
    (OrderProcess.order 3)).append (OrderProcess.order 4)

/-- What becomes of the first orders. -/
def failingHandled : List (Record × Handling) :=
  [(recordAt failingOrders 1, .failed (.invariantViolation 3 (recordAt failingOrders 1).key "placed"
      "workflow 8 is not deployed")),
    (recordAt failingOrders 2, .failed (.invariantViolation Key.unset
      (recordAt failingOrders 2).key "placed" "workflow 8 is not deployed")),
    (recordAt failingOrders 3, .skipped .blacklisted)]

/-- The instance whose order failed is stopped and its later order is passed over;
    the other instance goes on. -/
theorem failing_order_stops_instance :
    ∃ q, Continues OrderProcess.engine (.fresh 1) failingHandled q ∧
      (∀ instanceKey, q.processor.state.isBlacklisted instanceKey = true ↔ instanceKey = 3) ∧
      ∃ o, OrderProcess.engine.processNext q = some o ∧ o.1 ≠ .skipped .blacklisted := by
  have hwritten : Continues OrderProcess.engine (.fresh 1) [] failingOrders :=
    (((Continues.start.append _).append _).append _).append _
  have hfirst : Continues OrderProcess.engine (.fresh 1) (failingHandled.take 1)
      (OrderProcess.engine.drain 1 failingOrders).2 :=
    hwritten.next (o := (_, (OrderProcess.engine.drain 1 failingOrders).2)) (by decide +kernel)
      (by decide +kernel)
  have hsecond : Continues OrderProcess.engine (.fresh 1) (failingHandled.take 2)
      (OrderProcess.engine.drain 2 failingOrders).2 :=
    hfirst.next (o := (_, (OrderProcess.engine.drain 2 failingOrders).2)) (by decide +kernel)
      (by decide +kernel)
  have hrun : Continues OrderProcess.engine (.fresh 1) failingHandled
      (OrderProcess.engine.drain 3 failingOrders).2 :=
    hsecond.next (o := (_, (OrderProcess.engine.drain 3 failingOrders).2)) (by decide +kernel)
      (by decide +kernel)
  obtain ⟨-, hstopped, -, -, hnext⟩ := stopped_iff_failed_fatally rfl hrun
  have hthree : ∀ instanceKey, FailedFatally failingHandled instanceKey ↔ instanceKey = 3 := by
    intro instanceKey
    constructor
    · rintro ⟨hset, x, hx, hkey, -⟩
      have hkeys : ∀ x ∈ failingHandled, x.1.value.instanceKey = 3 ∨
          x.1.value.instanceKey = Key.unset := by decide +kernel
      exact hkey ▸ (hkeys x hx).resolve_right fun hunset => hset (hkey ▸ hunset)
    · rintro rfl
      decide +kernel
  obtain ⟨o, ho, hskipped, -⟩ := hnext (recordAt failingOrders 4) (by decide +kernel)
  refine ⟨_, hrun, fun instanceKey => (hstopped instanceKey).trans (hthree instanceKey), o, ho,
    ?_⟩
  rw [ne_eq, hskipped, hthree]
  decide +kernel

end Engine

end WorkflowEngine
