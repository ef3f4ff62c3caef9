import WorkflowEngine.Proofs.Lineage
import WorkflowEngine.Proofs.Outcomes
import WorkflowEngine.Proofs.Recovery

/-! # What a Record of a Run Is

    A record of a run with the standard handlers was appended from outside, or
    it was emitted while its source was handled. `Emits` tells from the source
    what such a record is, whatever the state was in which it was emitted.
    Nothing is assumed about the records from outside but that they carry no
    source position and that keys are drawn for new entities.
-/

namespace WorkflowEngine

namespace Log

variable {l : Log} {n : Nat} {ps : List PendingRecord} {r : Record}

/-- Each record of a list that pending ones became was one of them. -/
theorem exists_of_become {rs : List Record} (h : List.Forall₂ PendingRecord.Becomes ps rs)
    (hr : r ∈ rs) : ∃ x ∈ ps, x.Becomes r := by
  induction h with
  | nil => cases hr
  | cons hhead _ ih =>
    rcases List.mem_cons.mp hr with rfl | hr
    · exact ⟨_, List.mem_cons_self, hhead⟩
    · obtain ⟨x, hx, hbecomes⟩ := ih hr
      exact ⟨x, List.mem_cons_of_mem _ hx, hbecomes⟩

theorem mem_appendAll_of_mem (h : r ∈ l.records) : r ∈ (l.appendAll ps).records := by
  rw [appendAll_records]
  exact List.mem_append_left _ h

theorem mem_appendAll_records (h : r ∈ (l.appendAll ps).records) :
    r ∈ l.records ∨ r ∈ l.entries ps := by
  rw [appendAll_records] at h
  exact List.mem_append.mp h

theorem Drawn.appendAll (h : l.Drawn) (hps : ∀ x ∈ ps, x.key.isNone = x.intent.isNew) :
    (l.appendAll ps).Drawn := by
  induction ps generalizing l with
  | nil => exact h
  | cons x ps ih =>
    obtain ⟨hx, hps⟩ := List.forall_mem_cons.mp hps
    exact ih (h.append hx) hps

end Log

namespace Engine

variable {e : Engine} {id : PartitionId} {p : Partition} {allowed : Log → PendingRecord → Prop}

/-! ## Records that are emitted -/

section Emits

variable {c c' : Contents} {s r : Record} {x : PendingRecord}

/-- What a record is that was emitted while another one was handled. -/
inductive Emits (e : Engine) (s r : Record) : Prop where
  /-- An event activates the container that declares it. -/
  | activating {w : Workflow} {scope : Container} :
      e.repository.get? s.value.workflowKey = some w →
      w.flowScopeOf? s.value.elementId = some scope → s.intent = .eventOccurred →
      r.intent = .elementActivating → r.value = s.scopeValue scope.id → Emits e s r
  /-- A container is active, under the key of its activation. -/
  | activated : s.intent = .elementActivating → r.intent = .elementActivated → r.key = s.key →
      r.value = s.value.withInstance s.key → Emits e s r
  /-- A start event is triggered in an active container. -/
  | triggering {elementId : String} :
      s.intent = .elementActivated → r.intent = .eventTriggering →
      r.value = { s.value with elementId, scopeKey := s.key } → Emits e s r
  /-- A start event is acknowledged. -/
  | triggered {w : Workflow} {el : Element} : e.Finds s w el → s.intent = .eventTriggering →
      r.intent = .eventTriggered → r.value = s.value → Emits e s r
  /-- A termination is acknowledged. -/
  | terminated : s.intent = .elementTerminating → r.intent = .elementTerminated →
      r.value = s.value → Emits e s r

theorem Effect.emits (h : Effect e c s c' (some x)) (hx : x.Becomes r) : Emits e s r := by
  cases h with
  | occurred hfinds _ hintent hscope =>
    exact .activating hfinds.workflow hscope hintent hx.intent hx.value
  | activating _ _ hintent => exact .activated hintent hx.intent (hx.key _ rfl) hx.value
  | startedAtOnce _ hintent => exact .triggering hintent hx.intent hx.value
  | startedByToken _ hintent => exact .triggering hintent hx.intent hx.value
  | triggering hfinds _ hintent => exact .triggered hfinds hintent hx.intent hx.value
  | terminating _ _ hintent => exact .terminated hintent hx.intent hx.value

/-- No event is emitted. -/
theorem Emits.not_occurred (h : Emits e s r) : r.intent ≠ .eventOccurred := by
  cases h with
  | activating _ _ _ hintent => simp [hintent]
  | activated _ hintent => simp [hintent]
  | triggering _ hintent => simp [hintent]
  | triggered _ _ hintent => simp [hintent]
  | terminated _ hintent => simp [hintent]

/-- Containers are activated by events. -/
theorem Emits.of_activating (h : Emits e s r) (hr : r.intent = .elementActivating) :
    ∃ w scope, e.repository.get? s.value.workflowKey = some w ∧
      w.flowScopeOf? s.value.elementId = some scope ∧ s.intent = .eventOccurred ∧
        r.value = s.scopeValue scope.id := by
  cases h with
  | activating hw hscope hintent _ hvalue => exact ⟨_, _, hw, hscope, hintent, hvalue⟩
  | activated _ hintent => exact absurd (hr.symm.trans hintent) (by decide)
  | triggering _ hintent => exact absurd (hr.symm.trans hintent) (by decide)
  | triggered _ _ hintent => exact absurd (hr.symm.trans hintent) (by decide)
  | terminated _ hintent => exact absurd (hr.symm.trans hintent) (by decide)

/-- A key is drawn for what is emitted about a new entity, and for nothing else. -/
theorem Effect.emits_key (h : Effect e c s c' (some x)) : x.key.isNone = x.intent.isNew := by
  cases h with
  | _ => rfl

/-- What is emitted is the effect of a processed record. -/
theorem Outcome.emitted {t : PartitionState} {o : Handling × PartitionState × List PendingRecord}
    (h : Outcome e t s o) (hx : x ∈ o.2.2) : ∃ c', Effect e t.contents s c' (some x) := by
  cases h with
  | blacklisted => cases hx
  | noHandler => cases hx
  | failed => cases hx
  | @processed c out _ heffect =>
    obtain rfl : out = some x := by simpa using hx
    exact ⟨c, heffect⟩

/-- Nothing is emitted for a stopped workflow instance. -/
theorem Outcome.free_of_emitted {t : PartitionState}
    {o : Handling × PartitionState × List PendingRecord} (h : Outcome e t s o)
    (hx : x ∈ o.2.2) : t.isBlacklisted s.value.instanceKey = false := by
  cases h with
  | blacklisted => cases hx
  | noHandler => cases hx
  | failed => cases hx
  | processed hfree => exact hfree

end Emits

/-! ## Records of a run -/

theorem Exact.outcome (h : e.Exact p) (hstd : e.registry = .standard) (r : Record) :
    Outcome e p.processor.state r (e.handle p.processor.state r) := by
  rw [h.state]
  exact handle_outcome hstd (e.stateAt_formed p.log p.processor.lastProcessed).2 r

/-- Sources have been handled. -/
theorem Exact.source_le (h : e.Exact p) {r : Record} (hr : r ∈ p.log.records) {q : Nat}
    (hq : r.sourcePosition = some q) : 1 ≤ q ∧ q ≤ p.processor.lastProcessed := by
  by_contra hunhandled
  have hmem : r ∈ p.log.followUps q := Log.mem_followUps.mpr ⟨hr, hq⟩
  rw [h.unanswered q hunhandled] at hmem
  cases hmem

/-- What the next record emits has a source that was not handled before. -/
theorem Exact.lt_source (h : e.Exact p) {r : Record}
    (hr : p.log.read? (p.processor.lastProcessed + 1) = some r) :
    ∀ x ∈ (e.handle p.processor.state r).2.2, ∀ q, x.sourcePosition = some q →
      p.processor.lastProcessed < q := by
  obtain ⟨-, hpos⟩ := h.numbered.read?_eq_some_iff.mp hr
  intro x hx q hq
  have hsource := e.handle_source p.processor.state r x hx
  rw [hq, hpos] at hsource
  have hq := Option.some.inj hsource
  omega

/-- A record with a source was emitted while the source was handled. -/
theorem Exact.emits (h : e.Exact p) (hstd : e.registry = .standard) {r : Record}
    (hr : r ∈ p.log.records) {q : Nat} (hq : r.sourcePosition = some q) :
    ∃ s ∈ p.log.records, s.position = q ∧ e.Emits s r := by
  obtain ⟨hone, hle⟩ := h.source_le hr hq
  obtain ⟨s, hs⟩ := Log.exists_read? hone (Nat.le_trans hle h.reached)
  obtain ⟨hmem, hpos⟩ := h.numbered.read?_eq_some_iff.mp hs
  -- The follow-ups are what handling the source emits.
  have hfollow : r ∈ p.log.followUps q := Log.mem_followUps.mpr ⟨hr, hq⟩
  obtain ⟨x, hx, hbecomes⟩ := Log.exists_of_become (h.answered q s hs hle) hfollow
  obtain ⟨c', heffect⟩ :=
    (handle_outcome hstd (e.stateAt_formed p.log (q - 1)).2 s).emitted hx
  exact ⟨s, hmem, hpos, heffect.emits hbecomes⟩

theorem Reaches.endures (hsource : ∀ l x, allowed l x → x.sourcePosition = none)
    (h : Reaches e allowed id p) : Endures e id p := by
  induction h with
  | start => exact .start
  | append _ hx ih => exact ih.append (hsource _ _ hx)
  | next _ ho ih => exact ih.next ho

theorem Reaches.mono {allowed' : Log → PendingRecord → Prop}
    (himp : ∀ l x, allowed l x → allowed' l x) (h : Reaches e allowed id p) :
    Reaches e allowed' id p := by
  induction h with
  | start => exact .start
  | append _ hx ih => exact ih.append (himp _ _ hx)
  | next _ ho ih => exact ih.next ho

/-- A record without a source is one that may be appended from outside. -/
theorem Reaches.external (hmono : ∀ l x y, allowed l x → allowed (l.append y) x)
    (h : Reaches e allowed id p) :
    ∀ r ∈ p.log.records, r.sourcePosition = none →
      ∃ x, allowed p.log x ∧ x.Becomes r := by
  have hlater : ∀ {l x} ps, allowed l x → allowed (Log.appendAll l ps) x := by
    intro l x ps hx
    induction ps generalizing l with
    | nil => exact hx
    | cons y ps ih => exact ih (hmono l x y hx)
  induction h with
  | start =>
    intro r hr
    cases hr
  | @append p x _ hx ih =>
    intro r hr hnone
    rcases Log.mem_append_records hr with hr | rfl
    · obtain ⟨y, hy, hbecomes⟩ := ih r hr hnone
      exact ⟨y, hmono _ _ _ hy, hbecomes⟩
    · exact ⟨x, hmono _ _ _ hx, p.log.record_becomes x⟩
  | @next p o _ ho ih =>
    obtain ⟨s, hs, rfl⟩ := processNext_eq_some_iff.mp ho
    intro r hr hnone
    rw [after_log] at hr ⊢
    rcases Log.mem_appendAll_records hr with hr | hr
    · obtain ⟨y, hy, hbecomes⟩ := ih r hr hnone
      exact ⟨y, hlater _ hy, hbecomes⟩
    · -- What is emitted has a source.
      have hsource := Log.entries_source (e.handle_source p.processor.state s) r hr
      rw [hnone] at hsource
      cases hsource

/-- New entities have keys of their own. -/
theorem Reaches.drawn (hstd : e.registry = .standard)
    (hsource : ∀ l x, allowed l x → x.sourcePosition = none)
    (hkey : ∀ l x, allowed l x → x.key.isNone = x.intent.isNew) (h : Reaches e allowed id p) :
    p.log.Drawn := by
  induction h with
  | start => exact ⟨fun r hr => (by cases hr), fun r hr => (by cases hr)⟩
  | append _ hx ih => exact ih.append (hkey _ _ hx)
  | @next p o hp ho ih =>
    obtain ⟨s, hs, rfl⟩ := processNext_eq_some_iff.mp ho
    rw [after_log]
    refine ih.appendAll fun x hx => ?_
    obtain ⟨c', heffect⟩ := ((hp.endures hsource).exact.outcome hstd s).emitted hx
    exact heffect.emits_key

end Engine

end WorkflowEngine
