import WorkflowEngine.Proofs.Balance

/-! # Runs in Which Workflow Instances Are Shared

    Events occur in any workflow instance, containers are activated from outside
    that belong to no workflow instance yet, and containers that were activated
    are terminated, at any time and in any order with the processing.

    `Settled` is the invariant of these runs: a workflow instance that is not
    stopped is in step, unless it was upset and its tokens have not fitted its
    containers since. From this follows why a record can fail at all, and with
    which start events containers start.
-/

namespace WorkflowEngine

/-- The records from outside. -/
inductive Addressed (repo : Repository) (l : Log) : PendingRecord → Prop where
  /-- A declared start event occurs. -/
  | event {v : RecordValue} {scope : Container} {start : CatchEvent} :
      repo.Declares v scope start → Addressed repo l (.external .eventOccurred v)
  /-- A container is activated that belongs to no workflow instance yet. -/
  | activation {v : RecordValue} {scope : Container} :
      repo.Targets v scope → v.instanceKey = Key.unset →
      Addressed repo l (.external .elementActivating v)
  /-- A container that was activated before is terminated. -/
  | termination {a : Record} : a ∈ l.records → a.intent = .elementActivating →
      Addressed repo l ((PendingRecord.external .elementTerminating a.value).withKey a.key)

namespace Addressed

variable {repo : Repository} {l : Log} {x : PendingRecord}

theorem append (h : Addressed repo l x) (y : PendingRecord) : Addressed repo (l.append y) x := by
  cases h with
  | event hdeclares => exact .event hdeclares
  | activation htargets hunset => exact .activation htargets hunset
  | termination ha hintent => exact .termination (List.mem_append_left _ ha) hintent

theorem source (h : Addressed repo l x) : x.sourcePosition = none := by
  cases h with
  | _ => rfl

theorem key (h : Addressed repo l x) : x.key.isNone = x.intent.isNew := by
  cases h with
  | _ => rfl

end Addressed

namespace Engine

variable {e : Engine} {id : PartitionId} {p : Partition} {r : Record}

/-! ## What is known of each record -/

/-- Where the records of a partition come from. -/
structure Traced (e : Engine) (p : Partition) : Prop where
  /-- What was emitted is what the handled records emit. -/
  exact : e.Exact p
  /-- The other records were appended from outside. -/
  external : ∀ r ∈ p.log.records, r.sourcePosition = none →
    ∃ x, Addressed e.repository p.log x ∧ x.Becomes r
  /-- New entities have keys of their own. -/
  drawn : p.log.Drawn

theorem Reaches.traced (hstd : e.registry = .standard)
    (h : Reaches e (Addressed e.repository) id p) : e.Traced p where
  exact := (h.endures fun _ _ hx => hx.source).exact
  external := h.external fun _ _ y hx => hx.append y
  drawn := h.drawn hstd (fun _ _ hx => hx.source) fun _ _ hx => hx.key

/-- What is known of a record by its intent. -/
def Stage (e : Engine) (l : Log) (r : Record) : Prop :=
  match r.intent with
  | .eventOccurred => ∃ scope start, e.repository.Declares r.value scope start
  | .elementActivating => (∃ scope, e.repository.Targets r.value scope) ∧
      (r.sourcePosition = none → r.value.instanceKey = Key.unset)
  | .elementActivated => ∃ a ∈ l.records, a.intent = .elementActivating ∧
      r.sourcePosition = some a.position ∧ r.key = a.key ∧ r.value = a.value.withInstance a.key
  | .eventTriggering => True
  | .eventTriggered => ∃ w el, e.Finds r w el
  | .elementTerminating => ∃ a ∈ l.records, a.intent = .elementActivating ∧ r.value = a.value
  | .elementTerminated => ∃ t ∈ l.records, t.intent = .elementTerminating ∧ r.value = t.value
  | _ => False

namespace Traced

theorem stage (h : e.Traced p) (hstd : e.registry = .standard) (hr : r ∈ p.log.records) :
    e.Stage p.log r := by
  unfold Stage
  cases hsource : r.sourcePosition with
  | none =>
    obtain ⟨x, hx, hbecomes⟩ := h.external r hr hsource
    have hintent := hbecomes.intent
    have hvalue := hbecomes.value
    cases hx with
    | @event v scope start hdeclares =>
      rw [hintent]
      refine ⟨scope, start, ?_⟩
      rw [hvalue]
      exact hdeclares
    | @activation v scope htargets hunset =>
      rw [hintent]
      refine ⟨⟨scope, ?_⟩, fun _ => ?_⟩
      · rw [hvalue]
        exact htargets
      · rw [hvalue]
        exact hunset
    | termination ha haintent =>
      rw [hintent]
      exact ⟨_, ha, haintent, hvalue⟩
  | some q =>
    obtain ⟨s, hs, rfl, hemits⟩ := h.exact.emits hstd hr hsource
    cases hemits with
    | @activating w scope hw hscope _ hintent hvalue =>
      rw [hintent]
      obtain ⟨start, hdeclares⟩ := Repository.declares_of_flowScopeOf? hw hscope
      refine ⟨⟨scope, ⟨?_, ?_⟩⟩, fun hnone => by cases hnone⟩
      · rw [hvalue]
        exact hdeclares.deployed
      · rw [hvalue]
        rfl
    | activated hsintent hintent hkey hvalue =>
      rw [hintent]
      exact ⟨s, hs, hsintent, rfl, hkey, hvalue⟩
    | triggering _ hintent =>
      rw [hintent]
      trivial
    | @triggered w el hfinds _ hintent hvalue =>
      rw [hintent]
      refine ⟨w, el, ?_, ?_⟩
      · rw [hvalue]
        exact hfinds.workflow
      · rw [hvalue]
        exact hfinds.element
    | terminated hsintent hintent hvalue =>
      rw [hintent]
      exact ⟨s, hs, hsintent, hvalue⟩

theorem of_occurred (h : e.Traced p) (hstd : e.registry = .standard) (hr : r ∈ p.log.records)
    (hintent : r.intent = .eventOccurred) :
    ∃ scope start, e.repository.Declares r.value scope start := by
  simpa only [Stage, hintent] using h.stage hstd hr

theorem of_activating (h : e.Traced p) (hstd : e.registry = .standard) (hr : r ∈ p.log.records)
    (hintent : r.intent = .elementActivating) :
    (∃ scope, e.repository.Targets r.value scope) ∧
      (r.sourcePosition = none → r.value.instanceKey = Key.unset) := by
  simpa only [Stage, hintent] using h.stage hstd hr

theorem of_activated (h : e.Traced p) (hstd : e.registry = .standard) (hr : r ∈ p.log.records)
    (hintent : r.intent = .elementActivated) :
    ∃ a ∈ p.log.records, a.intent = .elementActivating ∧
      r.sourcePosition = some a.position ∧
      r.key = a.key ∧ r.value = a.value.withInstance a.key := by
  simpa only [Stage, hintent] using h.stage hstd hr

/-- A container that is activated or active is deployed. -/
theorem targets (h : e.Traced p) (hstd : e.registry = .standard) (hr : r ∈ p.log.records)
    (hintent : r.intent = .elementActivating ∨ r.intent = .elementActivated) :
    ∃ scope, e.repository.Targets r.value scope := by
  rcases hintent with hintent | hintent
  · exact (h.of_activating hstd hr hintent).1
  · obtain ⟨a, ha, haintent, -, -, hvalue⟩ := h.of_activated hstd hr hintent
    obtain ⟨⟨scope, htargets⟩, -⟩ := h.of_activating hstd ha haintent
    rw [hvalue]
    exact ⟨scope, htargets.deployed, htargets.named⟩

theorem finds_of_targets (hdep : e.repository.Deployed) {v : RecordValue} {scope : Container}
    (htargets : e.repository.Targets v scope) (hvalue : r.value = v) :
    ∃ w, e.Finds r w (.container scope) := by
  subst hvalue
  obtain ⟨w, hw, hel⟩ := htargets.lookup hdep
  exact ⟨w, hw, hel⟩

/-- Every record names a deployed element, except that a start event may be
    triggered that is no part of the workflow. -/
theorem finds (h : e.Traced p) (hdep : e.repository.Deployed) (hstd : e.registry = .standard)
    (hr : r ∈ p.log.records) (hintent : r.intent ≠ .eventTriggering) :
    ∃ w el, e.Finds r w el := by
  have hterminating : ∀ t ∈ p.log.records, t.intent = .elementTerminating →
      r.value = t.value → ∃ w el, e.Finds r w el := by
    intro t ht htintent hvalue
    obtain ⟨a, ha, haintent, havalue⟩ :
        ∃ a ∈ p.log.records, a.intent = .elementActivating ∧ t.value = a.value := by
      simpa only [Stage, htintent] using h.stage hstd ht
    obtain ⟨⟨scope, htargets⟩, -⟩ := h.of_activating hstd ha haintent
    obtain ⟨w, hfinds⟩ := finds_of_targets hdep htargets (hvalue.trans havalue)
    exact ⟨w, _, hfinds⟩
  have hstage := h.stage hstd hr
  cases hr' : r.intent with
  | eventOccurred =>
    obtain ⟨scope, start, hdeclares⟩ := h.of_occurred hstd hr hr'
    obtain ⟨w, hw, -, hel, -⟩ := hdeclares.lookup hdep
    exact ⟨w, _, hw, hel⟩
  | elementActivating =>
    obtain ⟨scope, htargets⟩ := h.targets hstd hr (.inl hr')
    obtain ⟨w, hfinds⟩ := finds_of_targets hdep htargets rfl
    exact ⟨w, _, hfinds⟩
  | elementActivated =>
    obtain ⟨scope, htargets⟩ := h.targets hstd hr (.inr hr')
    obtain ⟨w, hfinds⟩ := finds_of_targets hdep htargets rfl
    exact ⟨w, _, hfinds⟩
  | eventTriggering => exact absurd hr' hintent
  | eventTriggered => simpa only [Stage, hr'] using hstage
  | elementTerminating => exact hterminating r hr hr' rfl
  | elementTerminated =>
    obtain ⟨t, ht, htintent, hvalue⟩ :
        ∃ t ∈ p.log.records, t.intent = .elementTerminating ∧ r.value = t.value := by
      simpa only [Stage, hr'] using hstage
    exact hterminating t ht htintent hvalue
  | _ => simp only [Stage, hr'] at hstage

/-- A record without a handler takes no token. -/
theorem not_expects_of_noHandler (h : e.Traced p) (hdep : e.repository.Deployed)
    (hstd : e.registry = .standard) (hr : r ∈ p.log.records) {c : Contents} {s : Key}
    (hprogram : e.program? r = .ok none) : ¬c.Expects s r := by
  intro hexpects
  obtain ⟨scope, htargets⟩ := h.targets hstd hr hexpects.intent
  obtain ⟨w, hfinds⟩ := finds_of_targets hdep htargets rfl
  have hkind : (Element.container scope).kind = scope.kind := rfl
  rw [hfinds.program?_eq, hstd, hkind] at hprogram
  rcases hexpects.intent with hintent | hintent
  · rw [hintent, Registry.standard_activating scope.isContainer] at hprogram
    cases hprogram
  · rw [hintent, Registry.standard_activated scope.isContainer] at hprogram
    cases hprogram

/-- No container is active under the key of an activation that is still to be
    handled. -/
theorem key_ne_of_activating (h : e.Traced p) (hstd : e.registry = .standard)
    (hr : r ∈ p.log.records)
    (hintent : r.intent = .elementActivating) (hpos : p.processor.lastProcessed < r.position)
    {b : Record} (hb : b ∈ p.log.records) (hbintent : b.intent = .elementActivated) :
    b.key ≠ r.key := by
  intro hkey
  obtain ⟨a, ha, haintent, hsource, hbkey, -⟩ := h.of_activated hstd hb hbintent
  obtain ⟨-, hhandled⟩ := h.exact.source_le hb hsource
  -- The key was drawn for one activation alone.
  obtain rfl : a = r := h.drawn.distinct a ha r hr (by rw [haintent]; rfl) (by rw [hintent]; rfl)
    (hbkey.symm.trans hkey)
  omega

/-- A record fails because it triggers a start event that does not exist, or because
    it is a container that needs a token where there is none. -/
theorem fault_cases (h : e.Traced p) (hdep : e.repository.Deployed) (hstd : e.registry = .standard)
    (hr : r ∈ p.log.records) {c : Contents} {reason : String} (hfault : Fault e c r reason) :
    (r.intent = .eventTriggering ∧ ∀ w el, ¬e.Finds r w el) ∨
      ∃ scope, e.repository.Targets r.value scope ∧ r.intent = .elementActivated ∧
        c.instance? r.key ≠ none ∧ scope.firstStartEvent.isNone = false ∧
        c.tokensOf r.value.instanceKey = [] := by
  have hunknown : (∀ w el, ¬e.Finds r w el) →
      r.intent = .eventTriggering ∧ ∀ w el, ¬e.Finds r w el := by
    intro hnone
    refine ⟨?_, hnone⟩
    by_contra hintent
    obtain ⟨w, el, hfinds⟩ := h.finds hdep hstd hr hintent
    exact hnone w el hfinds
  cases hfault with
  | undeployed hnone =>
    refine .inl (hunknown fun w el hfinds => ?_)
    rw [hfinds.workflow] at hnone
    cases hnone
  | unknownElement hw hnone =>
    refine .inl (hunknown fun w' el hfinds => ?_)
    obtain rfl := Option.some.inj (hw.symm.trans hfinds.workflow)
    rw [hfinds.element] at hnone
    cases hnone
  | noScope hfinds _ hintent hnone =>
    obtain ⟨scope, start, hdeclares⟩ := h.of_occurred hstd hr hintent
    obtain ⟨w', hw', hscope, -⟩ := hdeclares.lookup hdep
    obtain rfl := Option.some.inj (hw'.symm.trans hfinds.workflow)
    rw [hscope] at hnone
    cases hnone
  | notContainer hfinds _ hintent hnone =>
    obtain ⟨scope, htargets⟩ := h.targets hstd hr (.inr hintent)
    obtain ⟨w', hw', hel⟩ := htargets.lookup hdep
    obtain rfl := Option.some.inj (hw'.symm.trans hfinds.workflow)
    obtain rfl := Option.some.inj (hel.symm.trans hfinds.element)
    cases hnone
  | noToken hfinds hintent hsome hfirst hnone =>
    have htargets := Repository.targets_of_element? hdep hfinds.workflow hfinds.element
    exact .inr ⟨_, htargets, hintent, hsome, hfirst, hnone⟩

theorem source_le_lastPosition (h : e.Traced p) :
    ∀ r ∈ p.log.records, ∀ q, r.sourcePosition = some q → q ≤ p.log.lastPosition :=
  fun _ hr _ hq => Nat.le_trans (h.exact.source_le hr hq).2 h.exact.reached

end Traced

/-! ## The invariant -/

/-- The container that is active at the source of a start event declares it. -/
def StartsOwn (e : Engine) (l : Log) (d : Record) : Prop :=
  ∃ b ∈ l.records, d.sourcePosition = some b.position ∧ b.intent = .elementActivated ∧
    ∃ scope start, e.repository.Targets b.value scope ∧
      e.repository.Declares d.value scope start

/-- How a start event came to be triggered: the container that is active at its
    source declares it; or the container only starts by a token, its workflow
    instance was out of step by then, and the token was left by another event of
    the same workflow instance. -/
inductive Started (e : Engine) (l : Log) (d : Record) : Prop where
  /-- The start event is one of the container's own. -/
  | own : e.StartsOwn l d → Started e l d
  /-- The start event is the one of an earlier event. -/
  | foreign {b ev : Record} {scope : Container} :
      b ∈ l.records → d.sourcePosition = some b.position → b.intent = .elementActivated →
      e.repository.Targets b.value scope → scope.firstStartEvent.isNone = false →
      d.value.instanceKey = b.value.instanceKey →
      e.OutOfStep l (b.position - 1) b.value.instanceKey →
      ev ∈ l.records → ev.position < b.position → ev.intent = .eventOccurred →
      ev.instanceKey = b.value.instanceKey → d.value.elementId = ev.value.elementId →
      Started e l d

/-- What is appended later changes no reason. -/
theorem Started.appendAll {l : Log} {n : Nat} {d : Record} {ps : List PendingRecord}
    (h : e.Started l d)
    (hsource : ∀ r ∈ l.records, ∀ q, r.sourcePosition = some q → q ≤ l.lastPosition)
    (hd : ∀ q, d.sourcePosition = some q → q ≤ n) (hn : n ≤ l.lastPosition)
    (hps : ∀ x ∈ ps, ∀ q, x.sourcePosition = some q → n < q) :
    e.Started (l.appendAll ps) d := by
  cases h with
  | own hown =>
    obtain ⟨b, hb, hrest⟩ := hown
    exact .own ⟨b, Log.mem_appendAll_of_mem hb, hrest⟩
  | foreign hb hdsource hintent htargets hfirst hinstance hout hev hevpos hevintent hevinstance
      hid =>
    have hle := hd _ hdsource
    refine .foreign (Log.mem_appendAll_of_mem hb) hdsource hintent htargets hfirst hinstance ?_
      (Log.mem_appendAll_of_mem hev) hevpos hevintent hevinstance hid
    refine hout.appendAll hsource (by omega) fun x hx q hq => ?_
    have hlt := hps x hx q hq
    omega

/-- The tokens and stopped workflow instances of a partition agree with its log. -/
structure Settled (e : Engine) (p : Partition) : Prop where
  /-- A workflow instance is in step, unless it is stopped or was upset and has not
      come into step since. -/
  inStep : ∀ s, p.processor.state.isBlacklisted s = false →
    ¬e.OutOfStep p.log p.processor.lastProcessed s → e.InStep p.log p.processor.lastProcessed s
  /-- What is stopped was upset. -/
  stopped : ∀ s, p.processor.state.isBlacklisted s = true →
    e.Upset p.log p.processor.lastProcessed s
  /-- Tokens were left by events that have been handled. -/
  deferred : ∀ s, ∀ t ∈ p.processor.state.contents.tokensOf s, ∃ ev ∈ p.log.records,
    ev.position ≤ p.processor.lastProcessed ∧ ev.intent = .eventOccurred ∧
      ev.instanceKey = s ∧ t = ev.token
  /-- Start events were triggered with good reason. -/
  started : ∀ d ∈ p.log.records, d.intent = .eventTriggering → e.Started p.log d

namespace Settled

theorem fresh (e : Engine) (id : PartitionId) : e.Settled (.fresh id) where
  inStep := by
    intro s _ _
    exact .nil
  stopped := by
    intro s hs
    cases hs
  deferred := by
    intro s t ht
    cases ht
  started := by
    intro d hd
    cases hd

/-! ## Why a record fails -/

/-- The tokens of a workflow instance that is in step fit the containers that claim
    them, the next record among them. -/
theorem matched (ht : e.Traced p) (h : e.Settled p) {s : Key}
    (hr : p.log.read? (p.processor.lastProcessed + 1) = some r)
    (hfree : p.processor.state.isBlacklisted s = false)
    (hcalm : ¬e.OutOfStep p.log p.processor.lastProcessed s) :
    ∃ rest, e.claiming p.log p.processor.lastProcessed = e.ownClaim p.log r ++ rest ∧
      p.processor.state.contents.Matched e.repository.Fits s (e.ownClaim p.log r ++ rest) ∧
      ∀ ps : List PendingRecord,
        (∀ x ∈ ps, x.sourcePosition = some (p.processor.lastProcessed + 1)) →
        e.claiming (p.log.appendAll ps) (p.processor.lastProcessed + 1) =
          rest ++ (p.log.entries ps).filter (e.repository.claims (p.log.appendAll ps)) := by
  have hmatched := h.inStep s hfree hcalm
  obtain ⟨rest, hclaiming, hnext⟩ := claiming_next (e := e) hr fun s hs q hq =>
    (ht.exact.source_le hs hq).2
  unfold InStep at hmatched
  rw [← ht.exact.state, hclaiming] at hmatched
  exact ⟨rest, hclaiming, hmatched, hnext⟩

/-- In a workflow instance that is in step there is a token for the container that
    starts next, and it fits. -/
theorem head_fits (ht : e.Traced p) (h : e.Settled p) (hdep : e.repository.Deployed)
    (hstd : e.registry = .standard)
    (hr : p.log.read? (p.processor.lastProcessed + 1) = some r)
    (hintent : r.intent = .elementActivated)
    (hsome : p.processor.state.contents.instance? r.key ≠ none) {scope : Container}
    (htargets : e.repository.Targets r.value scope) (hfirst : scope.firstStartEvent.isNone = false)
    (hfree : p.processor.state.isBlacklisted r.value.instanceKey = false)
    (hcalm : ¬e.OutOfStep p.log p.processor.lastProcessed r.value.instanceKey) :
    ∃ t ts, p.processor.state.contents.tokensOf r.value.instanceKey = t :: ts ∧
      e.repository.Fits t r := by
  have hmem : r ∈ p.log.records := (ht.exact.numbered.read?_eq_some_iff.mp hr).1
  obtain ⟨rest, -, hmatched, -⟩ := matched ht h hr hfree hcalm
  -- The container claims a token, in front of all others.
  obtain ⟨a, -, -, hsource, -⟩ := ht.of_activated hstd hmem hintent
  have hwaits := (Repository.startsAtOnce_eq hdep htargets).trans hfirst
  rw [ownClaim_eq (by simp [hsource]) (Repository.claims_of_waits hwaits)] at hmatched
  obtain ⟨i, hi⟩ := Option.ne_none_iff_exists'.mp hsome
  exact hmatched.head hintent hi

section Fault

variable (ht : e.Traced p) (h : e.Settled p) (hdep : e.repository.Deployed)
  (hstd : e.registry = .standard)
  (hr : p.log.read? (p.processor.lastProcessed + 1) = some r)
  (hfree : p.processor.state.isBlacklisted r.value.instanceKey = false)

include ht h hdep hstd hr hfree

/-- A container finds no token only where tokens and containers are out of step. -/
theorem outOfStep_of_noToken {scope : Container} (htargets : e.repository.Targets r.value scope)
    (hintent : r.intent = .elementActivated)
    (hsome : p.processor.state.contents.instance? r.key ≠ none)
    (hfirst : scope.firstStartEvent.isNone = false)
    (hnone : p.processor.state.contents.tokensOf r.value.instanceKey = []) :
    e.OutOfStep p.log p.processor.lastProcessed r.value.instanceKey := by
  by_contra hcalm
  -- Otherwise there is a token that the container is going to take.
  obtain ⟨t, ts, htokens, -⟩ :=
    head_fits ht h hdep hstd hr hintent hsome htargets hfirst hfree hcalm
  rw [hnone] at htokens
  cases htokens

/-- A record that takes a token fails only where tokens and containers are out of
    step. -/
theorem outOfStep_of_fault {reason : String}
    (hfault : Fault e p.processor.state.contents r reason) {c : Contents} {s : Key}
    (hexpects : c.Expects s r) :
    e.OutOfStep p.log p.processor.lastProcessed r.value.instanceKey := by
  have hmem : r ∈ p.log.records := (ht.exact.numbered.read?_eq_some_iff.mp hr).1
  rcases ht.fault_cases hdep hstd hmem hfault with
    ⟨hintent, -⟩ | ⟨scope, htargets, hintent, hsome, hfirst, hnone⟩
  · exact absurd hexpects (Contents.not_expects_of_intent (by simp [hintent]) (by simp [hintent]))
  · exact outOfStep_of_noToken ht h hdep hstd hr hfree htargets hintent hsome hfirst hnone

/-- A record that fails belongs to a workflow instance that was upset before. -/
theorem upset_of_fault {reason : String} (hfault : Fault e p.processor.state.contents r reason) :
    e.Upset p.log p.processor.lastProcessed r.value.instanceKey := by
  have hmem : r ∈ p.log.records := (ht.exact.numbered.read?_eq_some_iff.mp hr).1
  rcases ht.fault_cases hdep hstd hmem hfault with
    ⟨hintent, hunknown⟩ | ⟨scope, htargets, hintent, hsome, hfirst, hnone⟩
  · cases h.started r hmem hintent with
    | own hown =>
      obtain ⟨_, -, -, -, _, _, -, hdeclares⟩ := hown
      obtain ⟨w, hw, -, hel, -⟩ := hdeclares.lookup hdep
      exact absurd ⟨hw, hel⟩ (hunknown w _)
    | @foreign b _ _ _ hsource _ _ _ hinstance hout =>
      obtain ⟨-, hle⟩ := ht.exact.source_le hmem hsource
      rw [hinstance]
      exact hout.upset.mono (by omega)
  · exact (outOfStep_of_noToken ht h hdep hstd hr hfree htargets hintent hsome hfirst hnone).upset

end Fault

/-! ## What handling a record keeps -/

section Next

variable (ht : e.Traced p) (h : e.Settled p) (hdep : e.repository.Deployed)
  (hstd : e.registry = .standard)
  (hr : p.log.read? (p.processor.lastProcessed + 1) = some r)

include ht hr

/-- What was upset before a record was handled is upset after it. -/
theorem upset_after {s : Key} (hupset : e.Upset p.log p.processor.lastProcessed s) :
    e.Upset (e.after p r).log p.processor.lastProcessed s :=
  hupset.appendAll ht.source_le_lastPosition ht.exact.reached (ht.exact.lt_source hr)

/-- What was out of step before a record was handled was so in the log after it. -/
theorem outOfStep_after {s : Key} (hout : e.OutOfStep p.log p.processor.lastProcessed s) :
    e.OutOfStep (e.after p r).log p.processor.lastProcessed s :=
  hout.appendAll ht.source_le_lastPosition ht.exact.reached (ht.exact.lt_source hr)

/-- A workflow instance that a record does not bring out of step is in balance after
    it. -/
theorem balance_after {s : Key}
    (hcalm : ¬e.OutOfStep (e.after p r).log (p.processor.lastProcessed + 1) s)
    (hmisfit : ¬e.InStep (e.after p r).log (p.processor.lastProcessed + 1) s)
    (hkind : e.repository.Unsettles p.log r) :
    e.Balanced (e.after p r).log (p.processor.lastProcessed + 1) s := by
  obtain ⟨hmem, hpos⟩ := ht.exact.numbered.read?_eq_some_iff.mp hr
  by_contra hunbalanced
  refine hcalm ⟨r, Log.mem_appendAll_of_mem hmem, Nat.le_of_eq hpos,
    hkind.appendAll (ht.source_le_lastPosition r hmem) _, hpos ▸ hunbalanced, ?_⟩
  intro m hrm hm
  obtain rfl : m = p.processor.lastProcessed + 1 := by omega
  exact hmisfit

include h hdep hstd

theorem inStep_next (s : Key) (hfree : (e.after p r).processor.state.isBlacklisted s = false)
    (hcalm : ¬e.OutOfStep (e.after p r).log (p.processor.lastProcessed + 1) s) :
    e.InStep (e.after p r).log (p.processor.lastProcessed + 1) s := by
  by_contra hmisfit
  obtain ⟨hmem, hpos⟩ := ht.exact.numbered.read?_eq_some_iff.mp hr
  have hbefore : ¬e.OutOfStep p.log p.processor.lastProcessed s :=
    fun hout => hcalm ((outOfStep_after ht hr hout).next hmisfit)
  have hbalance := balance_after ht hr hcalm hmisfit
  have houtcome := ht.exact.outcome hstd r
  rw [after_state] at hfree
  have hlisted : p.processor.state.isBlacklisted s = false :=
    Bool.eq_false_iff.mpr fun hs => by
      rw [(houtcome.isBlacklisted_iff s).mpr (.inl hs)] at hfree
      cases hfree
  obtain ⟨rest, hclaiming, hmatched, hnext⟩ := matched ht h hr hlisted hbefore
  have hafter := hnext _ fun x hx => hpos ▸ e.handle_source p.processor.state r x hx
  have hstate := (ht.exact.next (processNext_of_read? hr)).state
  apply hmisfit
  unfold Balanced at hbalance
  unfold InStep
  simp only [after_lastProcessed] at hstate
  rw [← hstate, after_log, hafter, after_state] at hbalance ⊢
  generalize e.handle p.processor.state r = o at houtcome hbalance hfree
  cases houtcome with
  | blacklisted hstopped =>
    -- Another workflow instance is stopped.
    refine matched_pass hmatched ownClaim_cases (fun _ hexpects => ?_) (by simp)
    rw [hexpects.1, hlisted] at hstopped
    cases hstopped
  | noHandler _ hprogram =>
    exact matched_pass hmatched ownClaim_cases
      (fun _ => ht.not_expects_of_noHandler hdep hstd hmem hprogram) (by simp)
  | failed hlive hfault =>
    -- The workflow instance of a record that takes a token is out of step.
    have hrest : p.processor.state.contents.Matched e.repository.Fits s (rest ++ []) :=
      matched_pass hmatched ownClaim_cases (fun _ hexpects => hbefore
        (hexpects.1 ▸ outOfStep_of_fault ht h hdep hstd hr hlive hfault hexpects)) (by simp)
    show Contents.Matched _ (p.processor.state.addToBlacklist r.value.instanceKey).store.contents
      s _
    rw [PartitionState.addToBlacklist_store]
    exact hrest
  | processed _ heffect =>
    have hformed := (e.stateAt_formed p.log p.processor.lastProcessed).1
    rw [← ht.exact.state] at hformed
    refine heffect.matched hdep hformed.keyed.contents (hpos ▸ hr) hmatched ?_ ?_ ?_ hbalance
    · intro hintent
      obtain ⟨a, -, -, hsource, -⟩ := ht.of_activated hstd hmem hintent
      simp [hsource]
    · intro hintent hset hsource
      exact hset ((ht.of_activating hstd hmem hintent).2 hsource)
    · intro hintent b hb hbintent
      have hb : b ∈ e.claiming p.log p.processor.lastProcessed :=
        hclaiming ▸ List.mem_append_right _ hb
      have hflight : b ∈ p.log.inFlight p.processor.lastProcessed := (List.mem_filter.mp hb).1
      have hbmem := List.mem_of_mem_drop (Log.mem_inFlight.mp hflight).1
      exact ht.key_ne_of_activating hstd hmem hintent (by omega) hbmem hbintent

theorem stopped_next (s : Key) (hs : (e.after p r).processor.state.isBlacklisted s = true) :
    e.Upset (e.after p r).log (p.processor.lastProcessed + 1) s := by
  refine (upset_after ht hr ?_).mono (Nat.le_succ _)
  have houtcome := ht.exact.outcome hstd r
  rw [after_state] at hs
  generalize e.handle p.processor.state r = o at houtcome hs
  cases houtcome with
  | blacklisted => exact h.stopped s hs
  | noHandler => exact h.stopped s hs
  | failed hlive hfault =>
    rcases PartitionState.isBlacklisted_addToBlacklist_iff.mp hs with hs | ⟨-, rfl⟩
    · exact h.stopped s hs
    · exact upset_of_fault ht h hdep hstd hr hlive hfault
  | processed => exact h.stopped s hs

omit hdep in
theorem deferred_next (s : Key) :
    ∀ t ∈ (e.after p r).processor.state.contents.tokensOf s,
      ∃ ev ∈ (e.after p r).log.records,
      ev.position ≤ p.processor.lastProcessed + 1 ∧ ev.intent = .eventOccurred ∧
        ev.instanceKey = s ∧ t = ev.token := by
  obtain ⟨hmem, hpos⟩ := ht.exact.numbered.read?_eq_some_iff.mp hr
  intro t htoken
  have hsplit : t ∈ p.processor.state.contents.tokensOf s ∨
      r.intent = .eventOccurred ∧ r.instanceKey = s ∧ t = r.token := by
    have houtcome := ht.exact.outcome hstd r
    rw [after_state] at htoken
    generalize e.handle p.processor.state r = o at houtcome htoken
    cases houtcome with
    | blacklisted => exact .inl htoken
    | noHandler => exact .inl htoken
    | failed =>
      have htoken : t ∈ (p.processor.state.addToBlacklist
          r.value.instanceKey).store.contents.tokensOf s := htoken
      rw [PartitionState.addToBlacklist_store] at htoken
      exact .inl htoken
    | processed _ heffect =>
      have hformed := (e.stateAt_formed p.log p.processor.lastProcessed).1
      rw [← ht.exact.state] at hformed
      exact heffect.mem_tokensOf hformed.keyed.contents htoken
  rcases hsplit with hold | ⟨hintent, hs, htoken⟩
  · obtain ⟨ev, hev, hevpos, hevent⟩ := h.deferred s t hold
    exact ⟨ev, Log.mem_appendAll_of_mem hev, by omega, hevent⟩
  · exact ⟨r, Log.mem_appendAll_of_mem hmem, by omega, hintent, hs, htoken⟩

/-- A start event that is triggered now is triggered with good reason. -/
theorem started_of_emitted {d : Record}
    (hd : d ∈ p.log.entries (e.handle p.processor.state r).2.2)
    (hdintent : d.intent = .eventTriggering) : e.Started (e.after p r).log d := by
  obtain ⟨hmem, hpos⟩ := ht.exact.numbered.read?_eq_some_iff.mp hr
  obtain ⟨x, hx, hbecomes⟩ := Log.exists_of_become (p.log.entries_become _) hd
  have hsource : d.sourcePosition = some r.position := by
    rw [hbecomes.source]
    exact e.handle_source p.processor.state r x hx
  obtain ⟨c', heffect⟩ := (ht.exact.outcome hstd r).emitted hx
  have hmem' : r ∈ (e.after p r).log.records := Log.mem_appendAll_of_mem hmem
  have hxintent := hbecomes.intent.symm.trans hdintent
  have hvalue := hbecomes.value
  cases heffect with
  | @startedAtOnce w scope hfinds hintent =>
    have htargets := Repository.targets_of_element? hdep hfinds.workflow hfinds.element
    have hdeclares : e.repository.Declares d.value scope scope.firstStartEvent := by
      rw [hvalue]
      exact ⟨htargets.deployed, List.head_mem scope.nonempty, rfl⟩
    exact .own ⟨r, hmem', hsource, hintent, _, _, htargets, hdeclares⟩
  | @startedByToken w scope t ts hfinds hintent hsome hfirst htokens =>
    have htargets := Repository.targets_of_element? hdep hfinds.workflow hfinds.element
    by_cases hout : e.OutOfStep p.log p.processor.lastProcessed r.value.instanceKey
    · -- The token may be the one of any earlier event.
      obtain ⟨ev, hev, hevpos, hevintent, hevinstance, rfl⟩ :=
        h.deferred r.value.instanceKey t (htokens ▸ List.mem_cons_self)
      have hout' : e.OutOfStep (e.after p r).log (r.position - 1) r.value.instanceKey := by
        rw [hpos]
        exact outOfStep_after ht hr hout
      exact .foreign hmem' hsource hintent htargets hfirst (by rw [hvalue]; rfl) hout'
        (Log.mem_appendAll_of_mem hev) (by omega) hevintent hevinstance (by rw [hvalue]; rfl)
    · -- The oldest token fits the container.
      have hfree := (ht.exact.outcome hstd r).free_of_emitted hx
      obtain ⟨t', ts', htokens', scope', start, htargets', hstart, hid⟩ :=
        head_fits ht h hdep hstd hr hintent hsome htargets hfirst hfree hout
      obtain rfl : t = t' := (List.cons.inj (htokens.symm.trans htokens')).1
      obtain rfl := htargets.unique hdep htargets'
      have hdeclares : e.repository.Declares d.value scope start := by
        rw [hvalue]
        exact ⟨htargets.deployed, hstart, hid⟩
      exact .own ⟨r, hmem', hsource, hintent, _, _, htargets, hdeclares⟩
  | occurred => cases hxintent
  | activating => cases hxintent
  | triggering => cases hxintent
  | terminating => cases hxintent

/-- **Handling a record keeps a partition settled.** -/
theorem next : e.Settled (e.after p r) where
  inStep := inStep_next ht h hdep hstd hr
  stopped := stopped_next ht h hdep hstd hr
  deferred := deferred_next ht h hstd hr
  started := by
    intro d hd hintent
    rcases Log.mem_appendAll_records hd with hd | hd
    · exact (h.started d hd hintent).appendAll ht.source_le_lastPosition
        (fun q hq => (ht.exact.source_le hd hq).2) ht.exact.reached (ht.exact.lt_source hr)
    · exact started_of_emitted ht h hdep hstd hr hd hintent

end Next

/-- **Records from outside keep a partition settled.** -/
theorem append (ht : e.Traced p) (h : e.Settled p) {x : PendingRecord}
    (hx : Addressed e.repository p.log x) : e.Settled (p.append x) := by
  have hlater : ∀ y ∈ [x], ∀ q, y.sourcePosition = some q →
      p.processor.lastProcessed < q := by
    intro y hy q hq
    rw [List.mem_singleton.mp hy, hx.source] at hq
    cases hq
  have hlog : (p.append x).log = p.log.appendAll [x] := rfl
  have hreached : p.processor.lastProcessed ≤ p.log.lastPosition := ht.exact.reached
  refine ⟨?_, ?_, ?_, ?_⟩
  · intro s hfree hcalm
    have hbefore : e.InStep p.log p.processor.lastProcessed s := h.inStep s hfree fun hout =>
      hcalm (hout.appendAll ht.source_le_lastPosition hreached hlater)
    exact (inStep_appendAll hreached hlater).mpr hbefore
  · intro s hs
    rw [hlog]
    exact (h.stopped s hs).appendAll ht.source_le_lastPosition hreached hlater
  · intro s t htoken
    obtain ⟨ev, hev, hevent⟩ := h.deferred s t htoken
    exact ⟨ev, List.mem_append_left _ hev, hevent⟩
  · intro d hd hintent
    rcases Log.mem_append_records hd with hd | rfl
    · rw [hlog]
      exact (h.started d hd hintent).appendAll ht.source_le_lastPosition
        (fun q hq => (ht.exact.source_le hd hq).2) hreached hlater
    · -- No start event is triggered from outside.
      have hxintent : x.intent = .eventTriggering := hintent
      cases hx with
      | event => cases hxintent
      | activation => cases hxintent
      | termination => cases hxintent

end Settled

/-- **Every run is settled.** -/
theorem Reaches.settled (hdep : e.repository.Deployed) (hstd : e.registry = .standard)
    (h : Reaches e (Addressed e.repository) id p) : e.Settled p := by
  induction h with
  | start => exact .fresh e id
  | append hp hx ih => exact .append (hp.traced hstd) ih hx
  | next hp ho ih =>
    obtain ⟨r, hr, rfl⟩ := processNext_eq_some_iff.mp ho
    exact .next (hp.traced hstd) ih hdep hstd hr

/-- A record only fails in a workflow instance that was upset before. -/
theorem Reaches.upset_of_failed (hdep : e.repository.Deployed) (hstd : e.registry = .standard)
    (h : Reaches e (Addressed e.repository) id p) {o : Handling × Partition}
    (ho : e.processNext p = some o) {error : EngineError} (hfailed : o.1 = .failed error) :
    ∃ r, p.log.read? (p.processor.lastProcessed + 1) = some r ∧
      e.Upset p.log p.processor.lastProcessed r.value.instanceKey := by
  obtain ⟨r, hr, rfl⟩ := processNext_eq_some_iff.mp ho
  refine ⟨r, hr, ?_⟩
  have houtcome := (h.traced hstd).exact.outcome hstd r
  simp only at hfailed
  generalize e.handle p.processor.state r = o at houtcome hfailed
  cases houtcome with
  | blacklisted => cases hfailed
  | noHandler => cases hfailed
  | failed hlive hfault =>
    exact (h.settled hdep hstd).upset_of_fault (h.traced hstd) hdep hstd hr hlive hfault
  | processed => cases hfailed

end Engine

end WorkflowEngine
