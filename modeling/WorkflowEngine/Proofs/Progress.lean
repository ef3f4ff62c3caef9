import WorkflowEngine.Proofs.Waiting

/-! # Progress of a Partition

    `Orderly` is the invariant of the runs in which events start containers,
    and containers at the top level may be terminated. `Orderly.progress` says
    what handling the next record does, and that it does not fail. That every
    part of the invariant is kept follows from this alone, by cases on
    `Progress`.
-/

namespace WorkflowEngine

/-- The containers are tracked that were activated and not terminated. -/
def Tracked (c : Contents) (rs : List Record) : Prop :=
  ∀ k i, c.instance? k = some i ↔
    ∃ a ∈ rs, a.intent = .elementActivating ∧ a.key = k ∧ i = a.tracked ∧
      ∀ t ∈ rs, t.intent = .elementTerminating → t.key ≠ k

namespace Tracked

variable {c c' : Contents} {r : Record} {rs : List Record}

theorem empty : Tracked .empty [] := by
  intro k i
  simp [Contents.empty, Contents.instance?]

/-- A record of another intent may be handled. -/
theorem pass (h : Tracked c rs) (hr : r.intent ≠ .elementActivating)
    (hr' : r.intent ≠ .elementTerminating) (hc : ∀ k, c'.instance? k = c.instance? k) :
    Tracked c' (rs ++ [r]) := by
  intro k i
  rw [hc, h k i]
  simp only [List.mem_append, List.mem_singleton]
  constructor
  · rintro ⟨a, ha, hintent, hkey, hi, hlive⟩
    refine ⟨a, .inl ha, hintent, hkey, hi, ?_⟩
    rintro t (ht | rfl) htintent
    · exact hlive t ht htintent
    · exact absurd htintent hr'
  · rintro ⟨a, ha | rfl, hintent, hkey, hi, hlive⟩
    · exact ⟨a, ha, hintent, hkey, hi, fun t ht => hlive t (.inl ht)⟩
    · exact absurd hintent hr

/-- An activated container is tracked, under a key that was not in use. -/
theorem activate (h : Tracked c rs) (hr : r.intent = .elementActivating)
    (hnew : ∀ a ∈ rs, a.intent = .elementActivating → a.key ≠ r.key)
    (hlive : ∀ t ∈ rs, t.intent = .elementTerminating → t.key ≠ r.key) :
    Tracked (c.setInstance r.key (some r.tracked)) (rs ++ [r]) := by
  intro k i
  rw [Contents.instance?_setInstance]
  simp only [List.mem_append, List.mem_singleton]
  by_cases hk : k = r.key
  · subst hk
    rw [if_pos rfl]
    constructor
    · intro hi
      refine ⟨r, .inr rfl, hr, rfl, (Option.some.inj hi).symm, ?_⟩
      rintro t (ht | rfl) htintent
      · exact hlive t ht htintent
      · rw [hr] at htintent
        cases htintent
    · rintro ⟨a, ha | rfl, hintent, hkey, rfl, -⟩
      · exact absurd hkey (hnew a ha hintent)
      · rfl
  · rw [if_neg hk, h k i]
    constructor
    · rintro ⟨a, ha, hintent, hkey, hi, hlive'⟩
      refine ⟨a, .inl ha, hintent, hkey, hi, ?_⟩
      rintro t (ht | rfl) htintent
      · exact hlive' t ht htintent
      · rw [hr] at htintent
        cases htintent
    · rintro ⟨a, ha | rfl, hintent, hkey, hi, hlive'⟩
      · exact ⟨a, ha, hintent, hkey, hi, fun t ht => hlive' t (.inl ht)⟩
      · exact absurd hkey.symm hk

/-- A terminated container is no longer tracked. -/
theorem terminate (h : Tracked c rs) (hr : r.intent = .elementTerminating)
    (hc : ∀ k, c'.instance? k = if k = r.key then none else c.instance? k) :
    Tracked c' (rs ++ [r]) := by
  intro k i
  rw [hc]
  simp only [List.mem_append, List.mem_singleton]
  by_cases hk : k = r.key
  · rw [if_pos hk]
    constructor
    · intro hi
      cases hi
    · rintro ⟨a, -, -, -, -, hlive⟩
      exact absurd hk.symm (hlive r (.inr rfl) hr)
  · rw [if_neg hk, h k i]
    constructor
    · rintro ⟨a, ha, hintent, hkey, hi, hlive⟩
      refine ⟨a, .inl ha, hintent, hkey, hi, ?_⟩
      rintro t (ht | rfl) htintent
      · exact hlive t ht htintent
      · exact fun heq => hk heq.symm
    · rintro ⟨a, ha | rfl, hintent, hkey, hi, hlive⟩
      · exact ⟨a, ha, hintent, hkey, hi, fun t ht => hlive t (.inl ht)⟩
      · rw [hr] at hintent
        cases hintent

end Tracked

/-- A record has a follow-up, unless it ends its story. -/
def Answered (l : Log) (r : Record) : Prop :=
  (∃ s, s ∈ l.followUps r.position) ∨
    r.intent = .eventTriggered ∨ r.intent = .elementTerminated ∨
    r.intent = .elementActivated ∧
      ∃ t ∈ l.records, t.intent = .elementTerminating ∧ t.key = r.key

theorem Answered.append {l : Log} {r : Record} (h : Answered l r) (x : PendingRecord) :
    Answered (l.append x) r := by
  rcases h with ⟨s, hs⟩ | htriggered | hterminated | ⟨hactivated, t, ht, htintent, hkey⟩
  · exact .inl ⟨s, Log.followUps_subset_append hs x⟩
  · exact .inr (.inl htriggered)
  · exact .inr (.inr (.inl hterminated))
  · exact .inr (.inr (.inr ⟨hactivated, t, List.mem_append_left _ ht, htintent, hkey⟩))

/-- The tokens and instances of a partition agree with its log, of which the
    first `n` records have been handled. -/
structure Orderly (repo : Repository) (roots : Prop) (l : Log) (n : Nat) (c : Contents) : Prop where
  /-- The log holds stories and terminations. -/
  lineage : l.Lineage repo roots n
  /-- The instances are those that the handled records leave. -/
  tracked : Tracked c (l.records.take n)
  /-- The tokens wait for the other records. -/
  waiting : Waiting repo l c (l.records.drop n)
  /-- The handled records have their follow-ups. -/
  answered : ∀ r ∈ l.records.take n, Answered l r
  /-- Start events are triggered before their container is terminated. -/
  ended : ∀ t ∈ l.records.take n, t.intent = .elementTerminating →
    ∀ d ∈ l.records, d.intent = .eventTriggering → d.value.scopeKey = t.key →
      ∀ q, d.sourcePosition = some q → q < t.position

/-! ## What handling a record does -/

/-- What handling a record does to tokens and instances, and what it emits. -/
inductive Progress (repo : Repository) (l : Log) (c : Contents) (r : Record) :
    Contents → Option PendingRecord → Prop where
  /-- An event leaves a token and activates its container. -/
  | occurred {scope : Container} {start : CatchEvent} :
      r.intent = .eventOccurred → l.Story repo r r → repo.Awaits r.value scope start →
      Progress repo l c r
        (c.setTokens r.instanceKey (c.tokensOf r.instanceKey ++ [r.token]))
        (some (.followUp .elementActivating (r.scopeValue scope.id) r.position))
  /-- A container is tracked. -/
  | activating {ev : Record} : r.intent = .elementActivating → l.Story repo ev r →
      Progress repo l c r (c.setInstance r.key (some r.tracked))
        (some ((PendingRecord.followUp .elementActivated r.value r.position).withKey r.key))
  /-- A tracked container takes the token of its own event. -/
  | started {ev : Record} {i : ElementInstance} {ts : List Token} :
      r.intent = .elementActivated → l.Story repo ev r → c.instance? r.key = some i →
      c.tokensOf r.value.instanceKey = ev.token :: ts →
      Progress repo l c r (c.setTokens r.value.instanceKey ts)
        (some (.followUp .eventTriggering (ev.startValue r.key) r.position))
  /-- A container that is no longer tracked does nothing. -/
  | gone {ev : Record} : r.intent = .elementActivated → l.Story repo ev r →
      c.instance? r.key = none → Progress repo l c r c none
  /-- A start event is acknowledged. -/
  | triggering {ev : Record} : r.intent = .eventTriggering → l.Story repo ev r →
      Progress repo l c r c
        (some ((PendingRecord.followUp .eventTriggered r.value r.position).withKey r.key))
  /-- Nothing follows the start event. -/
  | triggered : r.intent = .eventTriggered → Progress repo l c r c none
  /-- A container is removed with the tokens of its workflow instance. -/
  | terminating {ev a : Record} : l.Story repo ev a → a.intent = .elementActivating →
      a.position < r.position → r.intent = .elementTerminating → r.key = a.key →
      r.value = a.value →
      Progress repo l c r
        (((c.setTokens r.key []).setInstance r.key none).setTokens r.value.instanceKey [])
        (some ((PendingRecord.followUp .elementTerminated r.value r.position).withKey r.key))
  /-- Nothing follows the termination. -/
  | terminated : r.intent = .elementTerminated → Progress repo l c r c none

/-- Handling a record makes progress and does not fail. -/
def Engine.Progresses (e : Engine) (l : Log) (c : Contents) (r : Record) : Prop :=
  ∃ handling c' out, e.handle (.holding c) r = (handling, .holding c', out.toList) ∧
    (∀ error, handling ≠ .failed error) ∧ Progress e.repository l c r c' out

section Handle

variable {e : Engine} {l : Log} {c : Contents} {ev r : Record} {scope : Container}
  {start : CatchEvent}

theorem Engine.progresses_of_processed {c' : Contents} (out : Option PendingRecord)
    (h : e.handle (.holding c) r = (.processed, .holding c', out.toList))
    (hprogress : Progress e.repository l c r c' out) : e.Progresses l c r := by
  refine ⟨.processed, c', out, h, ?_, hprogress⟩
  intro error hfailed
  cases hfailed

theorem Engine.progresses_of_noHandler
    (h : e.handle (.holding c) r = (.skipped .noHandler, .holding c, []))
    (hprogress : Progress e.repository l c r c none) : e.Progresses l c r := by
  refine ⟨.skipped .noHandler, c, none, h, ?_, hprogress⟩
  intro error hfailed
  cases hfailed

/-- The container of an event is found. -/
theorem finds_scope (hdep : e.repository.Deployed) (h : e.repository.Awaits ev.value scope start)
    (hvalue : r.value = ev.scopeValue scope.id) : ∃ w, e.Finds r w (.container scope) := by
  obtain ⟨w, hw, -, -, hel⟩ := h.lookup hdep
  refine ⟨w, ?_, ?_⟩
  · rw [hvalue]
    exact hw
  · rw [hvalue]
    exact hel

/-- The start event is found, and in its container. -/
theorem finds_start (hdep : e.repository.Deployed) (h : e.repository.Awaits ev.value scope start)
    (hkey : r.value.workflowKey = ev.value.workflowKey)
    (hid : r.value.elementId = ev.value.elementId) :
    ∃ w, e.Finds r w (.catchEvent start) ∧ w.flowScopeOf? r.value.elementId = some scope := by
  obtain ⟨w, hw, hscope, hel, -⟩ := h.lookup hdep
  refine ⟨w, ⟨?_, ?_⟩, ?_⟩
  · rw [hkey]
    exact hw
  · rw [hid]
    exact hel
  · rw [hid]
    exact hscope

theorem progresses_occurred (hdep : e.repository.Deployed) (hstd : e.registry = .standard)
    (h : l.Story e.repository r r) (hintent : r.intent = .eventOccurred) : e.Progresses l c r := by
  obtain ⟨scope, start, hawaits⟩ := h.awaits
  obtain ⟨w, hfinds, hscope⟩ := finds_start hdep hawaits rfl rfl
  exact Engine.progresses_of_processed (some _)
    (Engine.handle_eventOccurred hstd hfinds hawaits.kind hscope hintent)
    (.occurred hintent h hawaits)

theorem progresses_activating (hdep : e.repository.Deployed) (hstd : e.registry = .standard)
    (h : l.Story e.repository ev r) (hintent : r.intent = .elementActivating)
    (hset : ev.instanceKey ≠ Key.unset) : e.Progresses l c r := by
  obtain ⟨scope, start, hawaits, hvalue⟩ := h.scope_value (.inl hintent)
  obtain ⟨w, hfinds⟩ := finds_scope hdep hawaits hvalue
  have hhandle := Engine.handle_activateElement (c := c) hstd hfinds hintent
  -- The workflow instance is named already.
  have hinstance : r.value.instanceKey ≠ Key.unset := by
    rw [hvalue]
    exact hset
  rw [RecordValue.withInstance_of_set hinstance, Record.instanceKey,
    RecordValue.instanceOr_of_set hinstance] at hhandle
  exact Engine.progresses_of_processed (some _) hhandle (.activating hintent h)

/-- A tracked container finds the token of its event at the head of the queue. -/
theorem progresses_activated (hdep : e.repository.Deployed) (hstd : e.registry = .standard)
    (h : l.Story e.repository ev r) (hintent : r.intent = .elementActivated)
    (htoken : ∀ i, c.instance? r.key = some i →
      ∃ ts, c.tokensOf r.value.instanceKey = ev.token :: ts) : e.Progresses l c r := by
  obtain ⟨scope, start, hawaits, hvalue⟩ := h.scope_value (.inr hintent)
  obtain ⟨w, hfinds⟩ := finds_scope hdep hawaits hvalue
  cases hinst : c.instance? r.key with
  | none =>
    exact Engine.progresses_of_processed none
      (Engine.handle_triggerStartEvent_untracked hstd hfinds hintent hinst)
      (.gone hintent h hinst)
  | some i =>
    obtain ⟨ts, hts⟩ := htoken i hinst
    have hhandle :=
      Engine.handle_triggerStartEvent_token hstd hfinds hintent hinst hawaits.first hts
    have hstart : { r.value with elementId := ev.token.value.elementId, scopeKey := r.key } =
        ev.startValue r.key := by
      rw [hvalue]
      rfl
    rw [hstart] at hhandle
    exact Engine.progresses_of_processed (some _) hhandle (.started hintent h hinst hts)

theorem progresses_triggering (hdep : e.repository.Deployed) (hstd : e.registry = .standard)
    (h : l.Story e.repository ev r) (hintent : r.intent = .eventTriggering) :
    e.Progresses l c r := by
  obtain ⟨scope, start, hawaits⟩ := h.awaits
  obtain ⟨b, -, -, -, hvalue⟩ := h.of_triggering hintent
  obtain ⟨w, hfinds, -⟩ :=
    finds_start (r := r) hdep hawaits (by rw [hvalue]; rfl) (by rw [hvalue]; rfl)
  exact Engine.progresses_of_processed (some _)
    (Engine.handle_triggerEvent hstd hfinds hawaits.kind hintent) (.triggering hintent h)

theorem progresses_triggered (hdep : e.repository.Deployed) (hstd : e.registry = .standard)
    (h : l.Story e.repository ev r) (hintent : r.intent = .eventTriggered) :
    e.Progresses l c r := by
  obtain ⟨scope, start, hawaits⟩ := h.awaits
  obtain ⟨d, hd, hdintent, -, -, hsame⟩ := h.of_triggered hintent
  obtain ⟨b, -, -, -, hvalue⟩ := hd.of_triggering hdintent
  obtain ⟨w, hfinds, -⟩ := finds_start (r := r) hdep hawaits (by rw [hsame, hvalue]; rfl)
    (by rw [hsame, hvalue]; rfl)
  have hget : Registry.standard.get? ⟨(Element.catchEvent start).kind, r.intent⟩ = none := by
    rw [hintent, show (Element.catchEvent start).kind = .startEvent from hawaits.kind]
    exact Registry.standard_triggered
  exact Engine.progresses_of_noHandler (Engine.handle_noHandler hfinds hstd hget)
    (.triggered hintent)

theorem progresses_terminating {a : Record} (hdep : e.repository.Deployed)
    (hstd : e.registry = .standard) (h : l.Story e.repository ev a)
    (haintent : a.intent = .elementActivating) (hpos : a.position < r.position)
    (hintent : r.intent = .elementTerminating) (hkey : r.key = a.key) (hsame : r.value = a.value)
    (hroot : ev.value.scopeKey = Key.unset)
    (hchildren : ∀ k i, c.instance? k = some i → i.parentKey ≠ r.key) :
    e.Progresses l c r := by
  obtain ⟨scope, start, hawaits, hvalue⟩ := h.scope_value (.inl haintent)
  obtain ⟨w, hfinds⟩ := finds_scope (r := r) hdep hawaits (hsame.trans hvalue)
  have hscope : r.value.hasScope = false := by
    unfold RecordValue.hasScope
    have hvalue' : (ev.scopeValue scope.id).scopeKey = Key.unset := hroot
    rw [hsame, hvalue, hvalue']
    rfl
  exact Engine.progresses_of_processed (some _)
    (Engine.handle_terminateContainer hstd hfinds hintent hscope hchildren)
    (.terminating h haintent hpos hintent hkey hsame)

theorem progresses_terminated {a : Record} (hdep : e.repository.Deployed)
    (hstd : e.registry = .standard) (h : l.Story e.repository ev a)
    (haintent : a.intent = .elementActivating) (hintent : r.intent = .elementTerminated)
    (hsame : r.value = a.value) : e.Progresses l c r := by
  obtain ⟨scope, start, hawaits, hvalue⟩ := h.scope_value (.inl haintent)
  obtain ⟨w, hfinds⟩ := finds_scope (r := r) hdep hawaits (hsame.trans hvalue)
  have hget : Registry.standard.get? ⟨(Element.container scope).kind, r.intent⟩ = none := by
    rw [hintent]
    exact Registry.standard_terminated _
  exact Engine.progresses_of_noHandler (Engine.handle_noHandler hfinds hstd hget)
    (.terminated hintent)

end Handle

namespace Orderly

section Next

variable {e : Engine} {roots : Prop} {l : Log} {n : Nat} {c : Contents} {r : Record}

/-- **What handling the next record does**: it does not fail, and a container
    that starts takes the token of its own event. -/
theorem progress (hdep : e.repository.Deployed) (hstd : e.registry = .standard)
    (h : Orderly e.repository roots l n c) (hkeys : l.nextKey < Key.counters)
    (hr : l.read? (n + 1) = some r) : e.Progresses l c r := by
  have hmem := (h.lineage.numbered.read?_eq_some_iff.mp hr).1
  cases h.lineage.known r hmem with
  | @story ev _ hstory =>
    have hset := h.lineage.instanceKey_ne_unset hkeys hstory
    cases hintent : r.intent with
    | eventOccurred =>
      obtain ⟨rfl, -⟩ := hstory.of_occurred hintent
      exact progresses_occurred hdep hstd hstory hintent
    | elementActivating => exact progresses_activating hdep hstd hstory hintent hset
    | elementActivated =>
      refine progresses_activated hdep hstd hstory hintent fun i hinst => ?_
      -- The oldest token was left by the event to whose story the record belongs.
      have hwaiting := h.waiting
      rw [Log.drop_of_read? hr] at hwaiting
      obtain ⟨t, ts, htokens, ⟨ev', hev', rfl⟩, -⟩ := hwaiting.start hintent hinst
      obtain rfl := hstory.unique h.lineage.numbered hev'
      exact ⟨ts, htokens⟩
    | eventTriggering => exact progresses_triggering hdep hstd hstory hintent
    | eventTriggered => exact progresses_triggered hdep hstd hstory hintent
    | _ =>
      have hstage := hstory.stage
      simp only [Log.Story.Stage, hintent] at hstage
  | @terminating ev a _ ha haintent hpos hintent _ hkey hvalue =>
    -- Containers that may be terminated are at the top level, so nothing is within them.
    have hroots := h.lineage.terminable r hmem hintent
    have hroot : ∀ {ev a : Record}, l.Story e.repository ev a →
        a.intent = .elementActivating → a.value.scopeKey = Key.unset := by
      intro ev a ha haintent
      obtain ⟨_, _, _, _, hav⟩ := ha.of_activating haintent
      rw [hav]
      exact (h.lineage.rooted hroots ev ha.event.mem ha.event_intent).2
    have hchildren : ∀ k i, c.instance? k = some i → i.parentKey ≠ r.key := by
      intro k i hi
      obtain ⟨a', ha', haintent', -, rfl, -⟩ := (h.tracked k i).mp hi
      obtain ⟨ev', hev'⟩ :=
        (h.lineage.known a' (List.mem_of_mem_take ha')).story_of_intent haintent'
        (by decide)
      show a'.value.scopeKey ≠ r.key
      rw [hroot hev' haintent', hkey]
      exact (h.lineage.key_ne_unset hkeys ha.mem (by rw [haintent]; rfl)).symm
    exact progresses_terminating hdep hstd ha haintent hpos hintent hkey hvalue
      (h.lineage.rooted hroots ev ha.event.mem ha.event_intent).2 hchildren
  | terminated ha haintent ht htintent hfollow hintent hvalue =>
    exact progresses_terminated hdep hstd ha haintent hintent hvalue

end Next

/-! ## What progress keeps -/

section Keeps

variable {repo : Repository} {roots : Prop} {l : Log} {n : Nat} {c c' : Contents} {r : Record}
  {out : Option PendingRecord}

theorem lineage_next (h : Orderly repo roots l n c) (hr : l.read? (n + 1) = some r)
    (hp : Progress repo l c r c' out) : (l.appendAll out.toList).Lineage repo roots (n + 1) := by
  obtain ⟨hmem, -, hle⟩ := h.lineage.next_record hr
  have hsilent := h.lineage.silent (Nat.le_succ n) hle
  cases hp with
  | occurred hintent hstory hawaits =>
    exact h.lineage.append_followUp hr rfl (.story (hstory.record_activating hawaits rfl)) (by simp)
      (by simp) rfl
  | activating hintent hstory =>
    exact h.lineage.append_followUp hr rfl (.story (hstory.record_activated hintent rfl)) (by simp)
      (by simp) rfl
  | started hintent hstory =>
    exact h.lineage.append_followUp hr rfl (.story (hstory.record_triggering hintent rfl)) (by simp)
      (by simp) rfl
  | gone => exact hsilent
  | triggering hintent hstory =>
    exact h.lineage.append_followUp hr rfl (.story (hstory.record_triggered hintent rfl)) (by simp)
      (by simp) rfl
  | triggered => exact hsilent
  | terminating ha haintent _ hintent _ hvalue =>
    refine h.lineage.append_followUp hr rfl ?_ (by simp) (by simp) rfl
    exact .terminated (ha.append _) haintent (List.mem_append_left _ hmem) hintent
      (l.record_mem_followUps rfl) rfl hvalue
  | terminated => exact hsilent

theorem tracked_next (h : Orderly repo roots l n c) (hr : l.read? (n + 1) = some r)
    (hp : Progress repo l c r c' out) :
    Tracked c' ((l.appendAll out.toList).records.take (n + 1)) := by
  obtain ⟨hmem, hpos, hle⟩ := h.lineage.next_record hr
  have hnum := h.lineage.numbered
  have htracked := h.tracked
  rw [Log.take_appendAll hle, Log.take_succ_of_read? hr]
  cases hp with
  | occurred hintent =>
    exact htracked.pass (by simp [hintent]) (by simp [hintent]) fun k => rfl
  | activating hintent hstory =>
    refine htracked.activate hintent ?_ ?_
    · -- The key was drawn for this activation alone.
      intro a ha haintent hkey
      obtain ⟨hamem, hapos⟩ := hnum.mem_take_iff.mp ha
      obtain rfl := h.lineage.eq_of_activating hamem haintent hmem hintent hkey
      omega
    · -- A termination lies behind the activation that it is about.
      intro t ht htintent hkey
      obtain ⟨htmem, htpos⟩ := hnum.mem_take_iff.mp ht
      obtain ⟨_, a, ha, haintent, hapos, hakey, -⟩ :=
        (h.lineage.known t htmem).of_terminating htintent
      obtain rfl :=
        h.lineage.eq_of_activating ha.mem haintent hmem hintent (hakey.symm.trans hkey)
      omega
  | started hintent =>
    exact htracked.pass (by simp [hintent]) (by simp [hintent]) fun k => rfl
  | gone hintent => exact htracked.pass (by simp [hintent]) (by simp [hintent]) fun k => rfl
  | triggering hintent => exact htracked.pass (by simp [hintent]) (by simp [hintent]) fun k => rfl
  | triggered hintent => exact htracked.pass (by simp [hintent]) (by simp [hintent]) fun k => rfl
  | terminating _ _ _ hintent =>
    refine htracked.terminate hintent fun k => ?_
    rw [Contents.instance?_setTokens, Contents.instance?_setInstance]
    rfl
  | terminated hintent => exact htracked.pass (by simp [hintent]) (by simp [hintent]) fun k => rfl

/-- Tokens wait under the keys of events only, and none under that of a container. -/
theorem tokensOf_activation (h : Orderly repo roots l n c) (hroots : roots) {ev a : Record}
    (ha : l.Story repo ev a) (haintent : a.intent = .elementActivating) :
    c.tokensOf a.key = [] := by
  have hnever : c.expecting a.key (l.records.drop n) = [] := by
    refine Contents.expecting_eq_nil fun b hb hexpects => ?_
    have hbintent := hexpects.intent
    have hinstance : b.value.instanceKey = a.key := hexpects.1
    obtain ⟨ev', hev'⟩ : ∃ ev', l.Story repo ev' b := by
      have hknown := h.lineage.known b (List.mem_of_mem_drop hb)
      rcases hbintent with hbintent | hbintent
      · exact hknown.story_of_intent hbintent (by decide)
      · exact hknown.story_of_intent hbintent (by decide)
    rw [h.lineage.instanceKey_eq hroots hev' hbintent] at hinstance
    -- Two records have drawn this key, but one is an event.
    have heq := h.lineage.distinct ev' hev'.event.mem a ha.mem (by rw [hev'.event_intent]; rfl)
      (by rw [haintent]; rfl) hinstance
    have hevintent := hev'.event_intent
    rw [heq, haintent] at hevintent
    cases hevintent
  have hqueue := h.waiting a.key
  rw [hnever] at hqueue
  exact List.forall₂_nil_right_iff.mp hqueue

/-- A termination empties the queue of its workflow instance, in which no other
    container has a token. -/
theorem waiting_terminating (h : Orderly repo roots l n c) (hr : l.read? (n + 1) = some r)
    {ev a : Record} (ha : l.Story repo ev a) (haintent : a.intent = .elementActivating)
    (hapos : a.position < r.position) (hintent : r.intent = .elementTerminating)
    (hkey : r.key = a.key) (hvalue : r.value = a.value) :
    Waiting repo l
      (((c.setTokens r.key []).setInstance r.key none).setTokens r.value.instanceKey [])
      (l.records.drop (n + 1)) := by
  obtain ⟨hmem, hpos, hle⟩ := h.lineage.next_record hr
  have hroots := h.lineage.terminable r hmem hintent
  have hwaiting := h.waiting
  rw [Log.drop_of_read? hr] at hwaiting
  have hrest := hwaiting.pass (by simp [hintent]) (by simp [hintent])
  have hknown : ∀ {b}, b ∈ l.records.drop (n + 1) → l.Known repo b :=
    fun hb => h.lineage.known _ (List.mem_of_mem_drop hb)
  have hsame : c.setTokens r.key [] = c := by
    rw [hkey, ← h.tokensOf_activation hroots ha haintent, Contents.setTokens_tokensOf]
  rw [hsame]
  refine hrest.clear r.value.instanceKey ?_ ?_ ?_
  · -- An active container of the workflow instance is the one that is terminated.
    intro b hb hbintent hinstance
    obtain ⟨ev', hev'⟩ := (hknown hb).story_of_intent hbintent (by decide)
    rw [hvalue] at hinstance
    obtain rfl := h.lineage.event_eq hroots hev' (.inr hbintent) ha (.inl haintent) hinstance
    obtain ⟨a', ha', haintent', -, hkey', -⟩ := hev'.of_activated hbintent
    obtain rfl := ha'.eq_of_intent h.lineage.single ha (haintent.trans haintent'.symm)
    exact hkey'.trans hkey.symm
  · -- A container of another workflow instance has another key.
    intro b hb hbintent hinstance hbkey
    obtain ⟨ev', hev'⟩ := (hknown hb).story_of_intent hbintent (by decide)
    have hbvalue := (h.lineage.activation_eq ha.mem haintent hev' hbintent (hbkey.trans hkey)).2
    exact hinstance (by rw [hbvalue, hvalue])
  · -- Its activation lies before the termination, so it was handled.
    refine List.filter_eq_nil_iff.mpr fun b hb henters => ?_
    obtain ⟨hbintent, hinstance⟩ := of_decide_eq_true henters
    obtain ⟨ev', hev'⟩ := (hknown hb).story_of_intent hbintent (by decide)
    rw [hvalue] at hinstance
    obtain rfl := h.lineage.event_eq hroots hev' (.inl hbintent) ha (.inl haintent) hinstance
    obtain rfl := hev'.eq_of_intent h.lineage.single ha (haintent.trans hbintent.symm)
    have hlater := h.lineage.numbered.lt_position_of_mem_drop hb
    omega

theorem waiting_next (h : Orderly repo roots l n c) (hr : l.read? (n + 1) = some r)
    (hp : Progress repo l c r c' out) :
    Waiting repo (l.appendAll out.toList) c' ((l.appendAll out.toList).records.drop (n + 1)) := by
  obtain ⟨hmem, hpos, hle⟩ := h.lineage.next_record hr
  have hwaiting := h.waiting
  rw [Log.drop_of_read? hr] at hwaiting
  rw [Log.drop_appendAll hle]
  cases hp with
  | occurred hintent hstory hawaits =>
    have hrest := hwaiting.pass (by simp [hintent]) (by simp [hintent])
    exact hrest.enter rfl ⟨r, hstory.record_activating hawaits rfl, rfl⟩
  | activating hintent hstory =>
    refine hwaiting.activate hintent rfl rfl rfl ?_ ?_
    · rintro t ⟨ev', hev', rfl⟩
      exact ⟨ev', hev'.record_activated hintent rfl, rfl⟩
    · -- No container is active before its activation was handled.
      intro b hb hbintent hkey
      obtain ⟨ev', hev'⟩ :=
        (h.lineage.known b (List.mem_of_mem_drop hb)).story_of_intent hbintent
        (by decide)
      have hfollow := (h.lineage.activation_eq hmem hintent hev' hbintent hkey).1
      have hhandled := h.lineage.handled b hev'.mem _ (Log.mem_followUps.mp hfollow).2
      omega
  | started hintent hstory hinst htokens =>
    -- The oldest token goes, and the container is handled.
    obtain ⟨t, ts, htokens', -, hrest⟩ := hwaiting.start hintent hinst
    rw [htokens] at htokens'
    obtain rfl := (List.cons.inj htokens').2
    exact hrest.append (by simp) (by simp)
  | gone hintent _ hinst =>
    simpa using hwaiting.gone hintent hinst
  | triggering hintent =>
    have hrest := hwaiting.pass (by simp [hintent]) (by simp [hintent])
    exact hrest.append (by simp) (by simp)
  | triggered hintent =>
    simpa using hwaiting.pass (by simp [hintent]) (by simp [hintent])
  | terminating ha haintent hapos hintent hkey hvalue =>
    have hrest := h.waiting_terminating hr ha haintent hapos hintent hkey hvalue
    exact hrest.append (by simp) (by simp)
  | terminated hintent =>
    simpa using hwaiting.pass (by simp [hintent]) (by simp [hintent])

/-- The activation of an active container was handled before. -/
theorem activation_handled (h : Orderly repo roots l n c) {ev b : Record} (hb : l.Story repo ev b)
    (hbintent : b.intent = .elementActivated) :
    ∃ a ∈ l.records.take n, a.intent = .elementActivating ∧ a.key = b.key := by
  obtain ⟨a, ha, haintent, hfollow, hkey, -⟩ := hb.of_activated hbintent
  have hhandled := h.lineage.handled b hb.mem _ (Log.mem_followUps.mp hfollow).2
  exact ⟨a, h.lineage.numbered.mem_take_iff.mpr ⟨ha.mem, hhandled⟩, haintent, hkey.symm⟩

/-- An active container is no longer tracked only if it was terminated. -/
theorem terminated_of_untracked (h : Orderly repo roots l n c) {ev b : Record}
    (hb : l.Story repo ev b) (hbintent : b.intent = .elementActivated)
    (hinst : c.instance? b.key = none) :
    ∃ t ∈ l.records.take n, t.intent = .elementTerminating ∧ t.key = b.key := by
  obtain ⟨a, ha, haintent, hkey⟩ := h.activation_handled hb hbintent
  by_contra hlive
  -- Otherwise it would be tracked since its activation was handled.
  have htracked : c.instance? b.key = some a.tracked := by
    refine (h.tracked _ _).mpr ⟨a, ha, haintent, hkey, rfl, ?_⟩
    intro t ht htintent htkey
    exact hlive ⟨t, ht, htintent, htkey⟩
  rw [hinst] at htracked
  cases htracked

theorem answered_next (h : Orderly repo roots l n c) (hr : l.read? (n + 1) = some r)
    (hp : Progress repo l c r c' out) :
    ∀ s ∈ (l.appendAll out.toList).records.take (n + 1),
      Answered (l.appendAll out.toList) s := by
  obtain ⟨hmem, hpos, hle⟩ := h.lineage.next_record hr
  have hemitted : ∀ x : PendingRecord, x.sourcePosition = some r.position →
      Answered (l.append x) r :=
    fun x hx => .inl ⟨l.record x, l.record_mem_followUps hx⟩
  have hself : Answered (l.appendAll out.toList) r := by
    cases hp with
    | occurred => exact hemitted _ rfl
    | activating => exact hemitted _ rfl
    | started => exact hemitted _ rfl
    | gone hintent hstory hinst =>
      obtain ⟨t, ht, htintent, hkey⟩ := h.terminated_of_untracked hstory hintent hinst
      exact .inr (.inr (.inr ⟨hintent, t, List.mem_of_mem_take ht, htintent, hkey⟩))
    | triggering => exact hemitted _ rfl
    | triggered hintent => exact .inr (.inl hintent)
    | terminating => exact hemitted _ rfl
    | terminated hintent => exact .inr (.inr (.inl hintent))
  intro s hs
  rw [Log.take_appendAll hle, Log.take_succ_of_read? hr] at hs
  rcases List.mem_append.mp hs with hs | hs
  · cases out with
    | none => exact h.answered s hs
    | some x => exact (h.answered s hs).append x
  · rw [List.mem_singleton.mp hs]
    exact hself

/-- Only a container that is tracked triggers a start event. -/
theorem tracked_of_triggering {x : PendingRecord} (hp : Progress repo l c r c' (some x))
    (hx : x.intent = .eventTriggering) :
    r.intent = .elementActivated ∧ x.value.scopeKey = r.key ∧
      ∃ i, c.instance? r.key = some i := by
  cases hp with
  | started hintent _ hinst => exact ⟨hintent, rfl, _, hinst⟩
  | occurred => cases hx
  | activating => cases hx
  | triggering => cases hx
  | terminating => cases hx

theorem ended_next (h : Orderly repo roots l n c) (hr : l.read? (n + 1) = some r)
    (hp : Progress repo l c r c' out) :
    ∀ t ∈ (l.appendAll out.toList).records.take (n + 1), t.intent = .elementTerminating →
      ∀ d ∈ (l.appendAll out.toList).records, d.intent = .eventTriggering →
        d.value.scopeKey = t.key → ∀ q, d.sourcePosition = some q → q < t.position := by
  obtain ⟨hmem, hpos, hle⟩ := h.lineage.next_record hr
  intro t ht htintent d hd hdintent hscope q hq
  rw [Log.take_appendAll hle, Log.take_succ_of_read? hr, List.mem_append, List.mem_singleton] at ht
  -- The start event was triggered before.
  have hold : d ∈ l.records → q < t.position := by
    intro hd
    rcases ht with ht | rfl
    · exact h.ended t ht htintent d hd hdintent hscope q hq
    · have hhandled := h.lineage.handled d hd q hq
      omega
  cases out with
  | none => exact hold hd
  | some x =>
    rcases List.mem_append.mp hd with hd | hd
    · exact hold hd
    · -- It is triggered now, so its container was not terminated.
      obtain rfl := List.mem_singleton.mp hd
      obtain ⟨hintent, hkey, i, hinst⟩ := tracked_of_triggering hp hdintent
      obtain ⟨a, -, -, -, -, hlive⟩ := (h.tracked _ _).mp hinst
      rcases ht with ht | rfl
      · exact absurd (hscope.symm.trans hkey) (hlive t ht htintent)
      · rw [hintent] at htintent
        cases htintent

/-- **Progress keeps a partition orderly.** -/
theorem next (h : Orderly repo roots l n c) (hr : l.read? (n + 1) = some r)
    (hp : Progress repo l c r c' out) : Orderly repo roots (l.appendAll out.toList) (n + 1) c' where
  lineage := h.lineage_next hr hp
  tracked := h.tracked_next hr hp
  waiting := h.waiting_next hr hp
  answered := h.answered_next hr hp
  ended := h.ended_next hr hp

end Keeps

end Orderly

end WorkflowEngine
