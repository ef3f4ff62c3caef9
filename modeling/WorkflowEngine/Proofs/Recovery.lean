import WorkflowEngine.Proofs.Transaction

/-! # Recovery Is Exact

    A new processor replays the log up to the last record that has emitted
    others. The records behind it are handled a second time, and this time
    what they emit is appended. That nothing is lost and nothing is appended
    twice rests on one invariant that ties state, position and log together:

    * the state is the one that replaying the handled records gives, and
    * the follow-ups of a handled record are those that it emits when it is
      handled in that state; a record that is not handled has none.

    So a record behind the last source position, handled or not, has emitted
    nothing, and its second handling finds the same state as the first.
-/

namespace WorkflowEngine

namespace Engine

/-- State, position and log of a partition agree: what was emitted is exactly
    what the handled records emit. -/
structure Exact (e : Engine) (p : Partition) : Prop where
  /-- Positions count the records. -/
  numbered : p.log.Numbered
  /-- Only records of the log have been handled. -/
  reached : p.processor.lastProcessed ≤ p.log.lastPosition
  /-- The state is the one that the handled records lead to. -/
  state : p.processor.state = e.stateAt p.log p.processor.lastProcessed
  /-- The follow-ups of a handled record are what it emits. -/
  answered : ∀ q r, p.log.read? q = some r → q ≤ p.processor.lastProcessed →
    List.Forall₂ PendingRecord.Becomes (e.handle (e.stateAt p.log (q - 1)) r).2.2
      (p.log.followUps q)
  /-- Only handled records have follow-ups. -/
  unanswered : ∀ q, ¬(1 ≤ q ∧ q ≤ p.processor.lastProcessed) → p.log.followUps q = []

variable {e : Engine} {id : PartitionId} {p : Partition}

theorem exact_fresh (e : Engine) (id : PartitionId) : e.Exact (.fresh id) where
  numbered := by
    intro i r hr
    simp [Partition.fresh] at hr
  reached := Nat.le_refl 0
  state := rfl
  answered := by
    intro q r hr
    cases q <;> simp [Partition.fresh, Log.read?] at hr
  unanswered := by
    intro q _
    rfl

/-! ## Appending and processing -/

theorem Exact.append (h : e.Exact p) {r : PendingRecord} (hr : r.sourcePosition = none) :
    e.Exact (p.append r) := by
  have happend : (p.append r).log = p.log.appendAll [r] := rfl
  have hn : (p.append r).processor.lastProcessed ≤ p.log.lastPosition := h.reached
  refine ⟨h.numbered.append r, ?_, ?_, ?_, ?_⟩
  · rw [happend, Log.lastPosition_appendAll]
    omega
  · rw [happend, stateAt_appendAll hn]
    exact h.state
  · intro q s hs hq
    have hq' : q ≤ p.log.lastPosition := Nat.le_trans hq hn
    rw [happend, Log.read?_appendAll hq'] at hs
    have hstate : e.stateAt (p.append r).log (q - 1) = e.stateAt p.log (q - 1) :=
      stateAt_appendAll (by omega) [r]
    have hfollow : (p.append r).log.followUps q = p.log.followUps q :=
      Log.followUps_append_external p.log hr q
    rw [hstate, hfollow]
    exact h.answered q s hs hq
  · intro q hq
    have hfollow : (p.append r).log.followUps q = p.log.followUps q :=
      Log.followUps_append_external p.log hr q
    rw [hfollow]
    exact h.unanswered q hq

theorem Exact.next (h : e.Exact p) {o : Handling × Partition} (ho : e.processNext p = some o) :
    e.Exact o.2 := by
  obtain ⟨r, hr, rfl⟩ := processNext_eq_some_iff.mp ho
  obtain ⟨hmem, hpos⟩ := h.numbered.read?_eq_some_iff.mp hr
  have hle : p.processor.lastProcessed + 1 ≤ p.log.lastPosition :=
    hpos ▸ (h.numbered.position_le hmem).2
  -- All that is emitted joins the follow-ups of this one record.
  have hfollow := fun q => Log.followUps_appendAll p.log (e.handle_source p.processor.state r) q
  rw [hpos] at hfollow
  refine ⟨h.numbered.appendAll _, ?_, ?_, ?_, ?_⟩
  · rw [after_log, after_lastProcessed, Log.lastPosition_appendAll]
    omega
  · rw [after_state, after_log, after_lastProcessed, stateAt_appendAll hle, stateAt_succ hr,
      ← h.state]
  · intro q s hs hq
    rw [after_lastProcessed] at hq
    rw [after_log, Log.read?_appendAll (Nat.le_trans hq hle)] at hs
    rw [after_log, stateAt_appendAll (by omega), hfollow]
    by_cases hnew : q = p.processor.lastProcessed + 1
    · -- The record that was just handled had no follow-ups before.
      subst hnew
      obtain rfl : r = s := Option.some.inj (hr.symm.trans hs)
      rw [h.unanswered _ (by omega), if_pos rfl, Nat.add_sub_cancel, ← h.state]
      exact Log.entries_become p.log _
    · rw [if_neg hnew, List.append_nil]
      exact h.answered q s hs (by omega)
  · intro q hq
    rw [after_lastProcessed] at hq
    rw [after_log, hfollow, if_neg (by omega), h.unanswered q (by omega), List.append_nil]

/-! ## Restarting -/

/-- The last source position does not lie behind the records that were handled. -/
theorem Exact.lastSourcePosition_le (h : e.Exact p) :
    p.log.lastSourcePosition ≤ p.processor.lastProcessed := by
  rw [Log.lastSourcePosition_le_iff]
  intro r hr q hq
  by_contra hlt
  have hnone := h.unanswered q (by omega)
  have hmem : r ∈ p.log.followUps q := Log.mem_followUps.mpr ⟨hr, hq⟩
  rw [hnone] at hmem
  cases hmem

/-- A new processor replays the records up to the last source position. -/
theorem recover_restart (e : Engine) (p : Partition) :
    (e.recover p.restart).2 =
      ⟨p.log, ⟨e.stateAt p.log p.log.lastSourcePosition, p.log.lastSourcePosition⟩⟩ := by
  simp [recover, Partition.restart, unrecovered, stateAt, Log.recordsFrom]

theorem Exact.restart (h : e.Exact p) : e.Exact (e.recover p.restart).2 := by
  have hle := h.lastSourcePosition_le
  rw [recover_restart]
  refine ⟨h.numbered, Nat.le_trans hle h.reached, rfl, ?_, ?_⟩
  · intro q r hr hq
    exact h.answered q r hr (Nat.le_trans hq hle)
  · intro q hq
    have hq : ¬(1 ≤ q ∧ q ≤ p.log.lastSourcePosition) := hq
    by_cases hzero : 1 ≤ q
    · -- A follow-up of a record behind the last source position would be a later source.
      refine List.eq_nil_iff_forall_not_mem.mpr fun r hr => ?_
      obtain ⟨hmem, hsource⟩ := Log.mem_followUps.mp hr
      have hlast : q ≤ p.log.lastSourcePosition :=
        Log.lastSourcePosition_le_iff.mp (Nat.le_refl _) r hmem q hsource
      omega
    · exact h.unanswered q (by omega)

theorem Endures.exact (h : Endures e id p) : e.Exact p := by
  induction h with
  | start => exact exact_fresh e id
  | append _ hr ih => exact ih.append hr
  | next _ ho ih => exact ih.next ho
  | restart _ ih => exact ih.restart

/-! ## Runs with restarts -/

/-- **Recovery is exact, and what a record emits is appended exactly once**, in
    whatever order records are appended, records are processed and the processor
    is restarted. The state is the one that the handled records lead to, each of
    them has what it emits as its follow-ups, in order, and no other position
    has any. -/
theorem recovery_exactly_once (h : Endures e id p) :
    p.processor.lastProcessed ≤ p.log.lastPosition ∧
      p.processor.state = e.stateAt p.log p.processor.lastProcessed ∧
      (∀ q, 1 ≤ q → q ≤ p.processor.lastProcessed → ∃ r, p.log.read? q = some r ∧
        List.Forall₂ PendingRecord.Becomes (e.handle (e.stateAt p.log (q - 1)) r).2.2
          (p.log.followUps q)) ∧
      ∀ q, ¬(1 ≤ q ∧ q ≤ p.processor.lastProcessed) → p.log.followUps q = [] := by
  have hexact := h.exact
  refine ⟨hexact.reached, hexact.state, ?_, hexact.unanswered⟩
  intro q hone hq
  obtain ⟨r, hr⟩ := Log.exists_read? hone (Nat.le_trans hq hexact.reached)
  exact ⟨r, hr, hexact.answered q r hr hq⟩

/-- An order whose processor is restarted: its last record is handled a second
    time, and still every record is there once. -/
theorem recovery_exactly_once_order :
    ∃ p, Endures OrderProcess.engine 1 p ∧ p.processor.lastProcessed = 5 ∧
      p.processor.state = OrderProcess.engine.stateAt p.log 5 ∧
      p.log.records.map (·.sourcePosition) = [none, some 1, some 2, some 3, some 4] := by
  have hrun : Endures OrderProcess.engine 1 (OrderProcess.ordered 3) := .append .start rfl
  have hagain := (hrun.drain 9).restart.drain 9
  have hlast : (OrderProcess.engine.drain 9 (OrderProcess.engine.recover
      (OrderProcess.engine.drain 9 (OrderProcess.ordered 3)).2.restart).2).2.processor.lastProcessed
        = 5 := by decide +kernel
  obtain ⟨-, hstate, -⟩ := recovery_exactly_once hagain
  rw [hlast] at hstate
  exact ⟨_, hagain, hlast, hstate, by decide +kernel⟩

end Engine

end WorkflowEngine
