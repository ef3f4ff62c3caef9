import WorkflowEngine.Proofs.Progress

/-! # Containers Started by Events

    Runs with the standard handlers in which events occur that deployed
    containers wait for, and in which containers at the top level may be
    terminated, at any time and in any order with the processing.

    ### Main statements

    * `starts_with_own_token`: if events alone occur, whichever workflow
      instances they name, each of them starts its own container, once.
    * `starts_or_terminates`: if every event starts a workflow instance and the
      containers may be terminated, none of them is started after that.
-/

namespace WorkflowEngine

/-- The records from outside: events that deployed containers wait for and, if
    `roots` holds, terminations of the containers of such events. -/
inductive Admitted (repo : Repository) (roots : Prop) (l : Log) : PendingRecord → Prop where
  /-- An event occurs. -/
  | event {v : RecordValue} {scope : Container} {start : CatchEvent} :
      repo.Awaits v scope start →
      (roots → v.instanceKey = Key.unset ∧ v.scopeKey = Key.unset) →
      Admitted repo roots l (.external .eventOccurred v)
  /-- A container that was activated before is terminated. -/
  | termination {a : Record} :
      roots → a ∈ l.records → a.intent = .elementActivating →
      Admitted repo roots l ((PendingRecord.external .elementTerminating a.value).withKey a.key)

namespace Orderly

variable {repo : Repository} {roots : Prop} {l : Log} {n : Nat} {c : Contents} {x : PendingRecord}

theorem fresh (repo : Repository) (roots : Prop) (id : PartitionId) :
    Orderly repo roots { partitionId := id } 0 .empty where
  lineage := .fresh repo roots id
  tracked := .empty
  waiting := .empty repo _
  answered := by
    intro r hr
    cases hr
  ended := by
    intro t ht
    cases ht

theorem joins_of_admitted (h : l.Lineage repo roots n) (hx : Admitted repo roots l x) :
    Log.Lineage.Joins repo roots l n n x := by
  have hlast : l.record x ∈ (l.append x).records :=
    List.mem_append_right _ (List.mem_singleton.mpr rfl)
  cases hx with
  | event hawaits hunset =>
    refine ⟨?_, .story (.occurred hlast rfl rfl hawaits), fun hroots _ => hunset hroots, ?_,
      rfl⟩
    · intro q hq
      cases hq
    · intro hintent
      cases hintent
  | @termination a hroots ha haintent =>
    obtain ⟨ev, hev⟩ := (h.known a ha).story_of_intent haintent (by decide)
    have hpos := (h.numbered.position_le ha).2
    refine ⟨?_, ?_, ?_, fun _ => hroots, rfl⟩
    · intro q hq
      cases hq
    · exact .terminating (hev.append _) haintent (Nat.lt_succ_of_le hpos) rfl rfl
        (l.record_key_of_some rfl) rfl
    · intro _ hintent
      cases hintent

theorem intent_of_admitted (hx : Admitted repo roots l x) :
    x.intent = .eventOccurred ∨ x.intent = .elementTerminating := by
  cases hx with
  | event => exact .inl rfl
  | termination => exact .inr rfl

/-- **Records from outside keep a partition orderly.** -/
theorem append (h : Orderly repo roots l n c) (hx : Admitted repo roots l x) :
    Orderly repo roots (l.append x) n c := by
  have hle := h.lineage.reached
  have hintent : ∀ i, i ≠ .eventOccurred → i ≠ .elementTerminating → x.intent ≠ i := by
    rintro i hi hi' rfl
    rcases intent_of_admitted hx with h | h
    · exact hi h
    · exact hi' h
  -- The record waits behind those that have not been handled.
  have htake : (l.append x).records.take n = l.records.take n := Log.take_appendAll hle [x]
  have hdrop : (l.append x).records.drop n = l.records.drop n ++ [l.record x] :=
    Log.drop_appendAll hle [x]
  refine ⟨h.lineage.append (Nat.le_refl n) hle (joins_of_admitted h.lineage hx), ?_, ?_, ?_, ?_⟩
  · rw [htake]
    exact h.tracked
  · rw [hdrop]
    exact h.waiting.append (hintent _ (by simp) (by simp)) (hintent _ (by simp) (by simp))
  · intro r hr
    rw [htake] at hr
    exact (h.answered r hr).append x
  · intro t ht htintent d hd hdintent
    rw [htake] at ht
    rcases List.mem_append.mp hd with hd | hd
    · exact h.ended t ht htintent d hd hdintent
    · obtain rfl := List.mem_singleton.mp hd
      exact absurd hdintent (hintent _ (by simp) (by simp))

end Orderly

namespace Engine

variable {e : Engine} {id : PartitionId} {p : Partition} {roots : Prop}
  {allowed : Log → PendingRecord → Prop}

/-! ## Runs -/

theorem nextKey_le_after (e : Engine) (p : Partition) (r : Record) :
    p.log.nextKey ≤ (e.after p r).log.nextKey := by
  rw [after_log, Log.appendAll_nextKey]
  exact Nat.le_add_right _ _

/-- **Every run is orderly** as long as counters are left. -/
theorem Reaches.orderly (hdep : e.repository.Deployed) (hstd : e.registry = .standard)
    (hallowed : ∀ l x, allowed l x → Admitted e.repository roots l x)
    (h : Reaches e allowed id p) (hkeys : p.log.nextKey < Key.counters) :
    ∃ c, p.processor.state = .holding c ∧
      Orderly e.repository roots p.log p.processor.lastProcessed c := by
  induction h with
  | start => exact ⟨.empty, rfl, .fresh e.repository roots id⟩
  | @append p x _ hx ih =>
    obtain ⟨c, hstate, horderly⟩ := ih (Nat.lt_of_le_of_lt (p.log.nextKey_le_append x) hkeys)
    exact ⟨c, hstate, horderly.append (hallowed _ _ hx)⟩
  | @next p o _ ho ih =>
    -- Counters were left before as well, so the invariant held.
    obtain ⟨r, hr, rfl⟩ := processNext_eq_some_iff.mp ho
    have hbefore := Nat.lt_of_le_of_lt (nextKey_le_after e p r) hkeys
    obtain ⟨c, hstate, horderly⟩ := ih hbefore
    obtain ⟨handling, c', out, hhandle, -, hprogress⟩ := horderly.progress hdep hstd hbefore hr
    refine ⟨c', ?_, ?_⟩
    · rw [after_state, hstate, hhandle]
    · rw [after_log, after_lastProcessed, hstate, hhandle]
      exact horderly.next hr hprogress

/-- No record of such a run fails. -/
theorem Reaches.not_failed (hdep : e.repository.Deployed) (hstd : e.registry = .standard)
    (hallowed : ∀ l x, allowed l x → Admitted e.repository roots l x)
    (h : Reaches e allowed id p) (hkeys : p.log.nextKey < Key.counters) {o : Handling × Partition}
    (ho : e.processNext p = some o) (error : EngineError) : o.1 ≠ .failed error := by
  obtain ⟨c, hstate, horderly⟩ := h.orderly hdep hstd hallowed hkeys
  obtain ⟨r, hr, rfl⟩ := processNext_eq_some_iff.mp ho
  obtain ⟨handling, c', out, hhandle, hok, -⟩ := horderly.progress hdep hstd hkeys hr
  rw [hstate, hhandle]
  exact hok error

end Engine

/-! ## Events alone -/

/-- Only events occur that deployed containers wait for. -/
def EventsOnly (repo : Repository) (_ : Log) (x : PendingRecord) : Prop :=
  ∃ v scope start, repo.Awaits v scope start ∧ x = .external .eventOccurred v

theorem EventsOnly.admitted {repo : Repository} {l : Log} {x : PendingRecord}
    (h : EventsOnly repo l x) : Admitted repo False l x := by
  obtain ⟨v, scope, start, hawaits, rfl⟩ := h
  exact .event hawaits False.elim

/-- The intents of what follows an event, in order. -/
def Intent.starting : List Intent :=
  [.elementActivating, .elementActivated, .eventTriggering, .eventTriggered]

/-- What descends from an event starts the event's container, at most once and
    with the event itself. -/
structure OwnStart (repo : Repository) (l : Log) (ev : Record) : Prop where
  /-- Nothing else follows the event. -/
  starting : ∀ r, l.Descends ev r → r.intent ∈ Intent.starting
  /-- There is at most one record of each intent. -/
  once : ∀ r s, l.Descends ev r → l.Descends ev s → r.intent = s.intent → r = s
  /-- The container is the one that declares the event. -/
  activating : ∀ a, l.Descends ev a → a.intent = .elementActivating →
    ∃ scope start, repo.Awaits ev.value scope start ∧ a.value.elementId = scope.id
  /-- The start event is the event, in its workflow instance and in the scope
      that was activated. -/
  triggering : ∀ d, l.Descends ev d → d.intent = .eventTriggering →
    d.value.elementId = ev.value.elementId ∧ d.value.instanceKey = ev.instanceKey ∧
      ∃ a, l.Descends ev a ∧ a.intent = .elementActivating ∧ d.value.scopeKey = a.key

theorem Log.Lineage.ownStart {repo : Repository} {roots : Prop} {l : Log} {n : Nat} {ev : Record}
    (h : l.Lineage repo roots n) (hev : l.Story repo ev ev) : OwnStart repo l ev where
  starting := by
    intro r hr
    obtain ⟨hstory, hnot⟩ := h.story_of_descends hev hr
    have hstage := hstory.stage
    cases hintent : r.intent with
    | eventOccurred => exact absurd hintent hnot
    | elementActivating => simp [Intent.starting]
    | elementActivated => simp [Intent.starting]
    | eventTriggering => simp [Intent.starting]
    | eventTriggered => simp [Intent.starting]
    | _ => simp only [Log.Story.Stage, hintent] at hstage
  once := by
    intro r s hr hs heq
    exact (h.story_of_descends hev hr).1.eq_of_intent h.single
      (h.story_of_descends hev hs).1 heq.symm
  activating := by
    intro a ha hintent
    obtain ⟨scope, start, hawaits, -, hvalue⟩ :=
      (h.story_of_descends hev ha).1.of_activating hintent
    exact ⟨scope, start, hawaits, by rw [hvalue]; rfl⟩
  triggering := by
    intro d hd hintent
    obtain ⟨b, hb, hbintent, -, hvalue⟩ := (h.story_of_descends hev hd).1.of_triggering hintent
    obtain ⟨a, ha, haintent, -, hkey, -⟩ := hb.of_activated hbintent
    obtain ⟨_, _, _, hfollow, _⟩ := ha.of_activating haintent
    rw [hvalue]
    exact ⟨rfl, rfl, a, .child hfollow, haintent, hkey⟩

namespace Orderly

variable {repo : Repository} {roots : Prop} {l : Log} {n : Nat} {c : Contents} {ev : Record}

/-- Once all records have been handled, a story goes on to its end. -/
theorem exists_successor (h : Orderly repo False l n c) (hall : n = l.lastPosition) {q : Record}
    (hq : l.Story repo ev q) {i : Intent} (hi : q.intent.successor? = some i) :
    ∃ r, r ∈ l.followUps q.position ∧ l.Story repo ev r ∧ r.intent = i := by
  have hnum := h.lineage.numbered
  have hhandled : q ∈ l.records.take n :=
    hnum.mem_take_iff.mpr ⟨hq.mem, hall ▸ (hnum.position_le hq.mem).2⟩
  rcases h.answered q hhandled with ⟨r, hr⟩ | hend | hend | ⟨-, t, ht, htintent, -⟩
  · have hstory := (h.lineage.known r (Log.mem_followUps.mp hr).1).story_of_followUps hnum hq hr
    have hnext := hstory.successor hnum hq.mem hr
    rw [hi] at hnext
    exact ⟨r, hr, hstory, (Option.some.inj hnext).symm⟩
  · rw [hend] at hi
    cases hi
  · rw [hend] at hi
    cases hi
  · exact (h.lineage.terminable t ht htintent).elim

theorem exists_starting (h : Orderly repo False l n c) (hall : n = l.lastPosition)
    (hev : l.Story repo ev ev) {i : Intent} (hi : i ∈ Intent.starting) :
    ∃ r, l.Descends ev r ∧ r.intent = i := by
  obtain ⟨a, hafollow, ha, haintent⟩ :=
    h.exists_successor hall hev (by rw [hev.event_intent]; rfl)
  obtain ⟨b, hbfollow, hb, hbintent⟩ := h.exists_successor hall ha (by rw [haintent]; rfl)
  obtain ⟨d, hdfollow, hd, hdintent⟩ := h.exists_successor hall hb (by rw [hbintent]; rfl)
  obtain ⟨d', hdfollow', hd', hdintent'⟩ := h.exists_successor hall hd (by rw [hdintent]; rfl)
  have hda : l.Descends ev a := .child hafollow
  have hdb : l.Descends ev b := .trans hda hbfollow
  have hdd : l.Descends ev d := .trans hdb hdfollow
  simp only [Intent.starting, List.mem_cons, List.not_mem_nil, or_false] at hi
  rcases hi with rfl | rfl | rfl | rfl
  · exact ⟨a, hda, haintent⟩
  · exact ⟨b, hdb, hbintent⟩
  · exact ⟨d, hdd, hdintent⟩
  · exact ⟨d', .trans hdd hdfollow', hdintent'⟩

/-- Once all records have been handled, no token waits. -/
theorem tokensOf_eq_nil (h : Orderly repo roots l n c) (hall : n = l.lastPosition) (s : Key) :
    c.tokensOf s = [] := by
  have hnone : l.records.drop n = [] := List.drop_eq_nil_of_le (Nat.le_of_eq hall.symm)
  have hwaiting := h.waiting s
  rw [hnone] at hwaiting
  exact List.forall₂_nil_right_iff.mp hwaiting

end Orderly

namespace Engine

variable {e : Engine} {id : PartitionId} {p : Partition}

/-- **Every activation takes its own event's token**: however events of any
    number of workflow instances are interleaved with their processing, none
    fails, and what descends from an event starts the event's own container.
    Once all records have been handled this has happened exactly once for every
    event, and no token is left. -/
theorem starts_with_own_token (hdep : e.repository.Deployed) (hstd : e.registry = .standard)
    (h : Reaches e (EventsOnly e.repository) id p) (hkeys : p.log.nextKey < Key.counters) :
    (∀ o, e.processNext p = some o → ∀ error, o.1 ≠ .failed error) ∧
      (∀ ev ∈ p.log.records, ev.sourcePosition = none → OwnStart e.repository p.log ev) ∧
      (p.processor.lastProcessed = p.log.lastPosition →
        (∀ ev ∈ p.log.records, ev.sourcePosition = none → ∀ i ∈ Intent.starting,
          ∃! r, p.log.Descends ev r ∧ r.intent = i) ∧
        ∀ s, p.processor.state.contents.tokensOf s = []) := by
  have hallowed : ∀ l x, EventsOnly e.repository l x → Admitted e.repository False l x :=
    fun l x hx => hx.admitted
  obtain ⟨c, hstate, horderly⟩ := h.orderly hdep hstd hallowed hkeys
  have hevent : ∀ ev ∈ p.log.records, ev.sourcePosition = none →
      p.log.Story e.repository ev ev :=
    fun ev hev hsource => horderly.lineage.story_of_external hev hsource
      fun hintent => horderly.lineage.terminable ev hev hintent
  refine ⟨fun o ho error => h.not_failed hdep hstd hallowed hkeys ho error, ?_, ?_⟩
  · intro ev hev hsource
    exact horderly.lineage.ownStart (hevent ev hev hsource)
  · intro hall
    refine ⟨?_, ?_⟩
    · intro ev hev hsource i hi
      have hstory := hevent ev hev hsource
      obtain ⟨r, hr, hintent⟩ := horderly.exists_starting hall hstory hi
      refine ⟨r, ⟨hr, hintent⟩, ?_⟩
      rintro s ⟨hs, hsintent⟩
      exact (horderly.lineage.ownStart hstory).once s r hs hr (hsintent.trans hintent.symm)
    · intro s
      rw [hstate]
      exact horderly.tokensOf_eq_nil hall s

/-- Two orders in one workflow instance. -/
theorem starts_with_own_token_orders :
    ∃ p, Reaches OrderProcess.engine (EventsOnly OrderProcess.repository) 1 p ∧
      p.log.lastPosition = 10 ∧
      (∀ ev ∈ p.log.records, ev.sourcePosition = none →
        ∃! r, p.log.Descends ev r ∧ r.intent = .eventTriggering) ∧
      ∀ s, p.processor.state.contents.tokensOf s = [] := by
  have hallowed : ∀ l, EventsOnly OrderProcess.repository l (OrderProcess.order 3) :=
    fun l => ⟨_, _, _, OrderProcess.awaits 3, rfl⟩
  have hrun : Reaches OrderProcess.engine (EventsOnly OrderProcess.repository) 1
      (OrderProcess.engine.drain 19 ((OrderProcess.ordered 3).append (OrderProcess.order 3))).2 :=
    ((Reaches.start.append (hallowed _)).append (hallowed _)).drain 19
  obtain ⟨-, -, hend⟩ :=
    starts_with_own_token OrderProcess.deployed rfl hrun (by decide +kernel)
  obtain ⟨honce, htokens⟩ := hend (by decide +kernel)
  refine ⟨_, hrun, by decide +kernel, ?_, htokens⟩
  intro ev hev hsource
  exact honce ev hev hsource .eventTriggering (by decide)

end Engine

/-! ## Events and terminations -/

/-- Events occur that start workflow instances, and containers that were
    activated before are terminated. -/
inductive EventsAndTerminations (repo : Repository) (l : Log) : PendingRecord → Prop where
  /-- An event starts a workflow instance. -/
  | event {v : RecordValue} {scope : Container} {start : CatchEvent} :
      repo.Awaits v scope start → v.instanceKey = Key.unset → v.scopeKey = Key.unset →
      EventsAndTerminations repo l (.external .eventOccurred v)
  /-- A container is terminated. -/
  | termination {a : Record} : a ∈ l.records → a.intent = .elementActivating →
      EventsAndTerminations repo l
        ((PendingRecord.external .elementTerminating a.value).withKey a.key)

theorem EventsAndTerminations.admitted {repo : Repository} {l : Log} {x : PendingRecord}
    (h : EventsAndTerminations repo l x) : Admitted repo True l x := by
  cases h with
  | event hawaits hinstance hscope => exact .event hawaits fun _ => ⟨hinstance, hscope⟩
  | termination ha haintent => exact .termination trivial ha haintent

/-- A start event is triggered in a scope. -/
def Record.Starts (d : Record) (scopeKey : Key) : Prop :=
  d.intent = .eventTriggering ∧ d.value.scopeKey = scopeKey

/-- An event has at most one scope, which is started at most once and with the
    event itself. -/
structure ScopeStart (l : Log) (ev : Record) : Prop where
  /-- What follows the event activates its scope. -/
  scope : ∀ a ∈ l.followUps ev.position, a.intent = .elementActivating
  /-- There is at most one scope. -/
  scope_once : ∀ a ∈ l.followUps ev.position, ∀ b ∈ l.followUps ev.position, a = b
  /-- The scope is started with the event. -/
  own : ∀ a ∈ l.followUps ev.position, ∀ d ∈ l.records, d.Starts a.key →
    d.value.elementId = ev.value.elementId
  /-- The scope is started at most once. -/
  once : ∀ a ∈ l.followUps ev.position, ∀ d ∈ l.records, d.Starts a.key →
    ∀ b ∈ l.records, b.Starts a.key → d = b

namespace Log.Lineage

variable {repo : Repository} {roots : Prop} {l : Log} {n : Nat} {ev a d : Record}

/-- What is started in the scope of an event belongs to its story. -/
theorem story_of_starts (h : l.Lineage repo roots n) (ha : l.Story repo ev a)
    (haintent : a.intent = .elementActivating) (hd : d ∈ l.records) (hstarts : d.Starts a.key) :
    l.Story repo ev d := by
  obtain ⟨hdintent, hscope⟩ := hstarts
  obtain ⟨ev', hstory⟩ := (h.known d hd).story_of_intent hdintent (by decide)
  obtain ⟨b, hb, hbintent, -, hvalue⟩ := hstory.of_triggering hdintent
  have hkey : b.key = a.key := by
    rw [hvalue] at hscope
    exact hscope
  -- The container that started follows the activation of this key, which has one story.
  have hfollow := (h.activation_eq ha.mem haintent hb hbintent hkey).1
  obtain rfl := (hb.source h.numbered ha.mem hfollow).unique h.numbered ha
  exact hstory

theorem scopeStart (h : l.Lineage repo roots n) (hev : l.Story repo ev ev) : ScopeStart l ev := by
  have hscope : ∀ a ∈ l.followUps ev.position, l.Story repo ev a ∧
      a.intent = .elementActivating := by
    intro a hfollow
    have ha :=
      (h.known a (Log.mem_followUps.mp hfollow).1).story_of_followUps h.numbered hev hfollow
    have hnext := ha.successor h.numbered hev.mem hfollow
    rw [hev.event_intent] at hnext
    exact ⟨ha, (Option.some.inj hnext).symm⟩
  refine ⟨fun a ha => (hscope a ha).2, h.single ev.position, ?_, ?_⟩
  · intro a hfollow d hd hstarts
    obtain ⟨ha, haintent⟩ := hscope a hfollow
    obtain ⟨b, -, -, -, hvalue⟩ :=
      (story_of_starts h ha haintent hd hstarts).of_triggering hstarts.1
    rw [hvalue]
    rfl
  · intro a hfollow d hd hstarts b hb hstarts'
    obtain ⟨ha, haintent⟩ := hscope a hfollow
    exact (story_of_starts h ha haintent hd hstarts).eq_of_intent h.single
      (story_of_starts h ha haintent hb hstarts') (hstarts'.1.trans hstarts.1.symm)

end Log.Lineage

namespace Orderly

variable {repo : Repository} {roots : Prop} {l : Log} {n : Nat} {c : Contents} {d t : Record}

/-- A scope that was terminated was started before or never. -/
theorem started_before (h : Orderly repo roots l n c) (ht : t ∈ l.records)
    (htintent : t.intent = .elementTerminating) (hn : t.position ≤ n) (hd : d ∈ l.records)
    (hstarts : d.Starts t.key) : ∃ q, d.sourcePosition = some q ∧ q < t.position := by
  obtain ⟨hdintent, hscope⟩ := hstarts
  obtain ⟨ev, hstory⟩ := (h.lineage.known d hd).story_of_intent hdintent (by decide)
  obtain ⟨b, -, -, hfollow, -⟩ := hstory.of_triggering hdintent
  have hsource := (Log.mem_followUps.mp hfollow).2
  have hhandled := h.lineage.numbered.mem_take_iff.mpr ⟨ht, hn⟩
  exact ⟨b.position, hsource, h.ended t hhandled htintent d hd hdintent hscope _ hsource⟩

end Orderly

namespace Engine

variable {e : Engine} {id : PartitionId} {p : Partition}

/-- **Starting and terminating race safely**: whenever a container is terminated
    while it is being started, nothing fails and nothing is stopped. It is
    started at most once, with its own event, and not after its termination was
    handled. Once all records have been handled no token is left, and the
    instances are the containers that were not terminated. -/
theorem starts_or_terminates (hdep : e.repository.Deployed) (hstd : e.registry = .standard)
    (h : Reaches e (EventsAndTerminations e.repository) id p)
    (hkeys : p.log.nextKey < Key.counters) :
    (∀ o, e.processNext p = some o → ∀ error, o.1 ≠ .failed error) ∧
      p.processor.state.blacklist = .empty ∧
      (∀ ev ∈ p.log.records, ev.intent = .eventOccurred → ScopeStart p.log ev) ∧
      (∀ t ∈ p.log.records, t.intent = .elementTerminating →
        t.position ≤ p.processor.lastProcessed →
        ∀ d ∈ p.log.records, d.Starts t.key →
          ∃ q, d.sourcePosition = some q ∧ q < t.position) ∧
      (p.processor.lastProcessed = p.log.lastPosition →
        (∀ s, p.processor.state.contents.tokensOf s = []) ∧
        ∀ k i, p.processor.state.contents.instance? k = some i ↔
          ∃ a ∈ p.log.records, a.intent = .elementActivating ∧ a.key = k ∧ i = a.tracked ∧
            ∀ t ∈ p.log.records, t.intent = .elementTerminating → t.key ≠ k) := by
  have hallowed : ∀ l x, EventsAndTerminations e.repository l x →
      Admitted e.repository True l x :=
    fun l x hx => hx.admitted
  obtain ⟨c, hstate, horderly⟩ := h.orderly hdep hstd hallowed hkeys
  refine ⟨fun o ho error => h.not_failed hdep hstd hallowed hkeys ho error, ?_, ?_, ?_, ?_⟩
  · rw [hstate]
    rfl
  · intro ev hev hintent
    obtain ⟨ev', hstory⟩ := (horderly.lineage.known ev hev).story_of_intent hintent (by decide)
    obtain ⟨rfl, -⟩ := hstory.of_occurred hintent
    exact horderly.lineage.scopeStart hstory
  · intro t ht htintent hn d hd hstarts
    exact horderly.started_before ht htintent hn hd hstarts
  · intro hall
    rw [hstate]
    refine ⟨fun s => horderly.tokensOf_eq_nil hall s, ?_⟩
    have htracked := horderly.tracked
    rw [List.take_of_length_le (Nat.le_of_eq hall.symm)] at htracked
    exact htracked

/-- The activation of the container of an order. -/
def orderActivation : Record :=
  (OrderProcess.engine.drain 1 (OrderProcess.ordered Key.unset)).2.log.records.getD 1 default

/-- An order whose container is terminated before it is active. -/
def orderTerminated : Partition :=
  (OrderProcess.engine.drain 9
    ((OrderProcess.engine.drain 1 (OrderProcess.ordered Key.unset)).2.append
    ((PendingRecord.external .elementTerminating orderActivation.value).withKey
      orderActivation.key))).2

/-- The order that is terminated in time does not start. -/
theorem starts_or_terminates_order :
    Reaches OrderProcess.engine
      (EventsAndTerminations OrderProcess.repository) 1 orderTerminated ∧
      orderTerminated.log.records.map (·.intent) = [.eventOccurred, .elementActivating,
        .elementTerminating, .elementActivated, .elementTerminated] ∧
      orderTerminated.processor.state.blacklist = .empty ∧
      (∀ s, orderTerminated.processor.state.contents.tokensOf s = []) ∧
      ∀ k, orderTerminated.processor.state.contents.instance? k = none := by
  have hordered : Reaches OrderProcess.engine (EventsAndTerminations OrderProcess.repository) 1
      (OrderProcess.ordered Key.unset) :=
    Reaches.start.append (.event (OrderProcess.awaits Key.unset) rfl rfl)
  have hrun : Reaches OrderProcess.engine (EventsAndTerminations OrderProcess.repository) 1
      orderTerminated :=
    ((hordered.drain 1).append (.termination (by decide +kernel) (by decide +kernel))).drain 9
  obtain ⟨-, hblacklist, -, -, hend⟩ :=
    starts_or_terminates OrderProcess.deployed rfl hrun (by decide +kernel)
  obtain ⟨htokens, htracked⟩ := hend (by decide +kernel)
  refine ⟨hrun, by decide +kernel, hblacklist, htokens, fun k => ?_⟩
  -- Every activation has a termination of its key.
  have hgone : ∀ a ∈ orderTerminated.log.records, a.intent = .elementActivating →
      ∃ t ∈ orderTerminated.log.records, t.intent = .elementTerminating ∧ t.key = a.key := by
    decide +kernel
  cases hk : orderTerminated.processor.state.contents.instance? k with
  | none => rfl
  | some i =>
    obtain ⟨a, ha, hintent, rfl, -, hlive⟩ := (htracked k i).mp hk
    obtain ⟨t, ht, htintent, hkey⟩ := hgone a ha hintent
    exact absurd hkey (hlive t ht htintent)

end Engine

end WorkflowEngine
