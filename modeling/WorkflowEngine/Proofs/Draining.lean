import Mathlib.Algebra.Ring.Nat
import Mathlib.Logic.Relation
import WorkflowEngine.Proofs.Outcomes

/-! # Draining a Log Ends

    The processor chases the end of a log that it appends to itself. Nothing
    bounds the log beforehand, but each step of the standard handlers leads on
    to at most one record, and only to one that is closer to the end of its
    story. The rank of an intent counts the steps that may still follow, so the
    ranks of the unprocessed records together are a budget for what is appended.

    ### Main statement

    `draining_ends`: from any state and any log, processing ends with the last
    record, after as many records as were unprocessed and have been appended.
-/

namespace WorkflowEngine

/-- How many records may still follow one from another, behind a record of the
    intent. -/
def Intent.rank : Intent → Nat
  | .eventOccurred => 4
  | .elementActivating => 3
  | .elementActivated => 2
  | .eventTriggering | .elementTerminating => 1
  | _ => 0

namespace Partition

/-- The records that have not been processed. -/
def unprocessed (p : Partition) : List Record := p.log.records.drop p.processor.lastProcessed

/-- How many records the unprocessed ones may still lead to, by their ranks. -/
def outstanding (p : Partition) : Nat := (p.unprocessed.map fun r => r.intent.rank).sum

variable {p : Partition} {r : Record}

theorem length_unprocessed (p : Partition) :
    p.unprocessed.length = p.log.lastPosition - p.processor.lastProcessed := by
  unfold unprocessed Log.lastPosition
  exact List.length_drop

theorem unprocessed_of_read? (h : p.log.read? (p.processor.lastProcessed + 1) = some r) :
    p.unprocessed = r :: p.log.records.drop (p.processor.lastProcessed + 1) :=
  Log.drop_of_read? h

theorem lt_lastPosition_of_read? (h : p.log.read? (p.processor.lastProcessed + 1) = some r) :
    p.processor.lastProcessed < p.log.lastPosition := by
  rw [Log.read?_succ] at h
  exact (List.getElem?_eq_some_iff.mp h).1

end Partition

namespace Engine

variable {e : Engine} {p q : Partition}

/-! ## What one record leads to -/

section Emitted

variable {s : PartitionState} {r : Record} {x : PendingRecord}

/-- What is emitted does not depend on whether a transaction was left open. -/
theorem handle_emitted_commit (e : Engine) (s : PartitionState) (r : Record) :
    (e.handle s.commit r).2.2 = (e.handle s r).2.2 := by
  by_cases hlisted : s.isBlacklisted r.value.instanceKey = true
  · have hlisted' : s.commit.isBlacklisted r.value.instanceKey = true := hlisted
    rw [handle_of_blacklisted hlisted, handle_of_blacklisted hlisted']
  · have hfree : s.isBlacklisted r.value.instanceKey = false := Bool.eq_false_iff.mpr hlisted
    have hfree' : s.commit.isBlacklisted r.value.instanceKey = false := hfree
    rw [handle_of_free hfree, handle_of_free hfree']
    cases e.program? r with
    | error error => rfl
    | ok program? =>
      cases program? with
      | none => rfl
      | some program => rfl

/-- The follow-up of a record has a lower rank. -/
theorem Effect.rank_lt {c c' : Contents} (h : Effect e c r c' (some x)) :
    x.intent.rank < r.intent.rank := by
  cases h with
  | occurred _ _ hintent =>
    rw [hintent]
    exact (by decide : Intent.elementActivating.rank < Intent.eventOccurred.rank)
  | activating _ _ hintent =>
    rw [hintent]
    exact (by decide : Intent.elementActivated.rank < Intent.elementActivating.rank)
  | startedAtOnce _ hintent =>
    rw [hintent]
    exact (by decide : Intent.eventTriggering.rank < Intent.elementActivated.rank)
  | startedByToken _ hintent =>
    rw [hintent]
    exact (by decide : Intent.eventTriggering.rank < Intent.elementActivated.rank)
  | triggering _ _ hintent =>
    rw [hintent]
    exact (by decide : Intent.eventTriggered.rank < Intent.eventTriggering.rank)
  | terminating _ _ hintent =>
    rw [hintent]
    exact (by decide : Intent.elementTerminated.rank < Intent.elementTerminating.rank)

/-- A record leads to at most one other, and that one has a lower rank. -/
theorem handle_emitted (hstd : e.registry = .standard) (s : PartitionState) (r : Record) :
    (e.handle s r).2.2 = [] ∨
      ∃ x, (e.handle s r).2.2 = [x] ∧ x.intent.rank < r.intent.rank := by
  rw [← handle_emitted_commit]
  have houtcome := handle_outcome (s := s.commit) hstd rfl r
  generalize e.handle s.commit r = o at houtcome ⊢
  cases houtcome with
  | blacklisted => exact .inl rfl
  | noHandler => exact .inl rfl
  | failed => exact .inl rfl
  | @processed c out _ heffect =>
    cases out with
    | none => exact .inl rfl
    | some x => exact .inr ⟨x, rfl, heffect.rank_lt⟩

/-- What a record leads to costs less than the record itself was worth. -/
theorem emitted_rank_sum_le (hstd : e.registry = .standard) (s : PartitionState) (r : Record) :
    (e.handle s r).2.2.length + ((e.handle s r).2.2.map fun x => x.intent.rank).sum ≤
      r.intent.rank := by
  rcases handle_emitted hstd s r with hnone | ⟨x, hone, hlt⟩
  · rw [hnone]
    exact Nat.zero_le _
  · rw [hone]
    simp only [List.length_singleton, List.map_cons, List.map_nil, List.sum_cons, List.sum_nil]
    omega

end Emitted

/-! ## One step -/

/-- The entries of a log have the ranks of the records they were made of. -/
theorem entries_rank (l : Log) (ps : List PendingRecord) :
    (l.entries ps).map (fun r => r.intent.rank) = ps.map fun x => x.intent.rank := by
  induction ps generalizing l with
  | nil => rfl
  | cons x ps ih =>
    have hhead : (l.record x).intent = x.intent := rfl
    simp only [Log.entries, List.map_cons, ih, hhead]

/-- The budget pays for what a step appends. -/
theorem outstanding_after (hstd : e.registry = .standard) {r : Record}
    (hr : p.log.read? (p.processor.lastProcessed + 1) = some r) :
    (e.after p r).log.lastPosition + (e.after p r).outstanding ≤
      p.log.lastPosition + p.outstanding := by
  have hlt := Partition.lt_lastPosition_of_read? hr
  have hemitted := emitted_rank_sum_le hstd p.processor.state r
  have hbefore : p.outstanding = r.intent.rank +
      ((p.log.records.drop (p.processor.lastProcessed + 1)).map fun r => r.intent.rank).sum := by
    unfold Partition.outstanding
    rw [Partition.unprocessed_of_read? hr, List.map_cons, List.sum_cons]
  have hafter : (e.after p r).outstanding =
      ((p.log.records.drop (p.processor.lastProcessed + 1)).map fun r => r.intent.rank).sum +
        ((e.handle p.processor.state r).2.2.map fun x => x.intent.rank).sum := by
    unfold Partition.outstanding Partition.unprocessed
    rw [after_log, after_lastProcessed, Log.drop_appendAll hlt, List.map_append, List.sum_append,
      entries_rank]
  rw [after_log, Log.lastPosition_appendAll, hbefore, hafter]
  omega

/-! ## Processing to the end -/

/-- Records are processed until the log has no more: the number of records, and
    what the partition is then. -/
inductive Drains (e : Engine) : Partition → Nat → Partition → Prop where
  /-- There is no next record. -/
  | done {p : Partition} : e.processNext p = none → Drains e p 0 p
  /-- The next record is processed, and then the others. -/
  | next {p q : Partition} {o : Handling × Partition} {count : Nat} :
      e.processNext p = some o → Drains e o.2 count q → Drains e p (count + 1) q

namespace Drains

variable {count : Nat}

/-- A limit that is not below the number of records does not show. -/
theorem drain_eq (h : Drains e p count q) {limit : Nat} (hlimit : count ≤ limit) :
    e.drain limit p = (count, q) := by
  induction h generalizing limit with
  | @done p hnone =>
    cases limit with
    | zero => rfl
    | succ limit => simp only [drain, hnone]
  | @next p q o count hnext _ ih =>
    cases limit with
    | zero => omega
    | succ limit =>
      have hrest : e.drain limit o.2 = (count, q) := ih (by omega)
      simp only [drain, hnext, hrest]

theorem processNext_eq_none (h : Drains e p count q) : e.processNext q = none := by
  induction h with
  | done hnone => exact hnone
  | next _ _ ih => exact ih

theorem lastProcessed (h : Drains e p count q) :
    q.processor.lastProcessed = p.processor.lastProcessed + count := by
  induction h with
  | done => rfl
  | next hnext _ ih =>
    obtain ⟨r, -, rfl⟩ := processNext_eq_some_iff.mp hnext
    rw [ih, after_lastProcessed]
    omega

/-- Nor does a limit after which nothing is left to process. -/
theorem of_drain {limit : Nat} (h : e.processNext (e.drain limit p).2 = none) :
    Drains e p (e.drain limit p).1 (e.drain limit p).2 := by
  induction limit generalizing p with
  | zero => exact .done h
  | succ limit ih =>
    cases hnext : e.processNext p with
    | none =>
      simp only [drain, hnext]
      exact .done hnext
    | some o =>
      simp only [drain, hnext] at h ⊢
      exact .next hnext (ih h)

/-- The log only grows. -/
theorem records (h : Drains e p count q) : ∃ new, q.log.records = p.log.records ++ new := by
  induction h with
  | done => exact ⟨[], (List.append_nil _).symm⟩
  | @next p q o count hnext _ ih =>
    obtain ⟨r, -, rfl⟩ := processNext_eq_some_iff.mp hnext
    obtain ⟨new, hnew⟩ := ih
    refine ⟨p.log.entries (e.handle p.processor.state r).2.2 ++ new, ?_⟩
    rw [hnew, after_log, Log.appendAll_records, List.append_assoc]

end Drains

/-- The processor gets from one partition to the other. -/
abbrev Passes (e : Engine) : Partition → Partition → Prop :=
  Relation.ReflTransGen fun p q => ∃ handling, e.processNext p = some (handling, q)

/-- Where no record is left, processing has ended. -/
theorem Passes.drains (h : e.Passes p q) (hnone : e.processNext q = none) :
    ∃ count, e.Drains p count q := by
  induction h using Relation.ReflTransGen.head_induction_on with
  | refl => exact ⟨0, .done hnone⟩
  | head hfirst _ ih =>
    obtain ⟨handling, hfirst⟩ := hfirst
    obtain ⟨count, hrest⟩ := ih
    exact ⟨count + 1, .next hfirst hrest⟩

theorem lastPosition_le_of_processNext_none (h : e.processNext p = none) :
    p.log.lastPosition ≤ p.processor.lastProcessed := by
  by_contra hlt
  obtain ⟨r, hr⟩ := Log.exists_read? (l := p.log) (q := p.processor.lastProcessed + 1)
    (by omega) (by omega)
  rw [processNext_of_read? hr] at h
  cases h

namespace Drains

variable {count : Nat}

/-- Processing never goes past the end of the log, so it ends right there. -/
theorem lastProcessed_eq_lastPosition (h : Drains e p count q)
    (hwithin : p.processor.lastProcessed ≤ p.log.lastPosition) :
    q.processor.lastProcessed = q.log.lastPosition := by
  induction h with
  | done hnone =>
    have hle := lastPosition_le_of_processNext_none hnone
    omega
  | next hnext _ ih =>
    obtain ⟨r, hr, rfl⟩ := processNext_eq_some_iff.mp hnext
    have hlt := Partition.lt_lastPosition_of_read? hr
    apply ih
    rw [after_lastProcessed, after_log, Log.lastPosition_appendAll]
    omega

/-- What is appended was within the budget. -/
theorem lastPosition_le (h : Drains e p count q) (hstd : e.registry = .standard) :
    q.log.lastPosition ≤ p.log.lastPosition + p.outstanding := by
  induction h with
  | done => exact Nat.le_add_right _ _
  | next hnext _ ih =>
    obtain ⟨r, hr, rfl⟩ := processNext_eq_some_iff.mp hnext
    exact Nat.le_trans ih (outstanding_after hstd hr)

end Drains

/-- Processing comes to an end: with each step, either the budget shrinks by
    what is appended, or there is one record less to process. -/
theorem exists_drains (hstd : e.registry = .standard) (p : Partition) :
    ∃ count q, Drains e p count q := by
  generalize hmeasure : p.log.lastPosition + p.outstanding - p.processor.lastProcessed = measure
  induction measure using Nat.strongRecOn generalizing p with
  | ind measure ih =>
    cases hnext : e.processNext p with
    | none => exact ⟨0, p, .done hnext⟩
    | some o =>
      obtain ⟨r, hr, rfl⟩ := processNext_eq_some_iff.mp hnext
      have hlt := Partition.lt_lastPosition_of_read? hr
      have hpaid := outstanding_after hstd hr
      obtain ⟨count, q, hdrains⟩ := ih _ (by rw [after_lastProcessed]; omega) (e.after p r) rfl
      exact ⟨count + 1, q, .next hnext hdrains⟩

/-- **Draining a partition ends**, whatever is deployed and whatever state and
    log it begins with: the last record is the last one that is processed. What
    is appended meanwhile stays within the ranks of the records that were
    unprocessed, and each processed record adds at most one record, of lower
    rank. -/
theorem draining_ends (hstd : e.registry = .standard)
    (hwithin : p.processor.lastProcessed ≤ p.log.lastPosition) :
    (∃ count q new, Drains e p count q ∧
      (∀ limit, count ≤ limit → e.drain limit p = (count, q)) ∧
      q.processor.lastProcessed = q.log.lastPosition ∧ q.log.records = p.log.records ++ new ∧
      new.length ≤ p.outstanding ∧ count = p.unprocessed.length + new.length) ∧
    ∀ (s : Partition) (r : Record), s.log.read? (s.processor.lastProcessed + 1) = some r →
      ∃ o, e.processNext s = some o ∧
        (o.2.log = s.log ∨ ∃ x, o.2.log.records = s.log.records ++ [x] ∧
          x.sourcePosition = some r.position ∧ x.intent.rank < r.intent.rank) := by
  constructor
  · obtain ⟨count, q, hdrains⟩ := exists_drains hstd p
    obtain ⟨new, hnew⟩ := hdrains.records
    have hend := hdrains.lastProcessed_eq_lastPosition hwithin
    have hcount := hdrains.lastProcessed
    have hbound := hdrains.lastPosition_le hstd
    have hlength : q.log.lastPosition = p.log.lastPosition + new.length := by
      unfold Log.lastPosition
      rw [hnew, List.length_append]
    refine ⟨count, q, new, hdrains, fun limit => hdrains.drain_eq, hend, hnew, by omega, ?_⟩
    rw [Partition.length_unprocessed]
    omega
  · intro s r hr
    refine ⟨_, processNext_of_read? hr, ?_⟩
    rcases handle_emitted hstd s.processor.state r with hnone | ⟨x, hone, hlt⟩
    · left
      show s.log.appendAll _ = s.log
      rw [hnone, Log.appendAll_nil]
    · right
      have hsource : x.sourcePosition = some r.position :=
        handle_source e s.processor.state r x (by rw [hone]; exact List.mem_singleton_self x)
      refine ⟨s.log.record x, ?_, hsource, hlt⟩
      show (s.log.appendAll _).records = _
      rw [hone, Log.appendAll_records]
      rfl

/-- An order uses its whole budget: one record leads to four others. -/
theorem draining_ends_order :
    (OrderProcess.ordered 3).processor.lastProcessed ≤
      (OrderProcess.ordered 3).log.lastPosition ∧ (OrderProcess.ordered 3).outstanding = 4 ∧
      ∃ q, Drains OrderProcess.engine (OrderProcess.ordered 3) 5 q ∧
        q.processor.lastProcessed = q.log.lastPosition ∧ q.log.lastPosition = 5 := by
  have hwithin : (OrderProcess.ordered 3).processor.lastProcessed ≤
      (OrderProcess.ordered 3).log.lastPosition := by decide
  have hbudget : (OrderProcess.ordered 3).outstanding = 4 := by decide
  have hone : (OrderProcess.ordered 3).unprocessed.length = 1 := by decide
  obtain ⟨⟨count, q, new, hdrains, hdrain, hend, -, hnew, hcount⟩, -⟩ :=
    draining_ends (e := OrderProcess.engine) rfl hwithin
  -- The budget bounds the number of records, so a limit of nine does not cut anything off.
  have hnine : OrderProcess.engine.drain 9 (OrderProcess.ordered 3) = (count, q) :=
    hdrain 9 (by omega)
  have hfive : count = 5 := by
    have hfst : (OrderProcess.engine.drain 9 (OrderProcess.ordered 3)).1 = 5 := by decide +kernel
    rw [hnine] at hfst
    exact hfst
  have hlast : q.log.lastPosition = 5 := by
    have hsnd : (OrderProcess.engine.drain 9 (OrderProcess.ordered 3)).2.log.lastPosition = 5 := by
      decide +kernel
    rw [hnine] at hsnd
    exact hsnd
  exact ⟨hwithin, hbudget, q, hfive ▸ hdrains, hend, hlast⟩

end Engine

end WorkflowEngine
