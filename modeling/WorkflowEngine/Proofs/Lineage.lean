import WorkflowEngine.Proofs.Deployment
import WorkflowEngine.Proofs.Keys
import WorkflowEngine.Proofs.Log
import WorkflowEngine.State.Contents

/-! # Where Records Come From

    The source positions of a log lead each emitted record back to a record
    from outside. What the standard handlers make of an event that occurs is
    its story: its container is activated, is active, and then its start event
    is triggering and triggered. Besides stories, a log may hold terminations
    of containers that it has activated.

    `Lineage` says this of a whole log, together with what makes the stories
    unambiguous: a record has at most one follow-up, and new entities have
    different keys.
-/

namespace WorkflowEngine

/-! ## Intents and values -/

/-- The intent of the follow-up of a record of a story. -/
def Intent.successor? : Intent → Option Intent
  | .eventOccurred => some .elementActivating
  | .elementActivating => some .elementActivated
  | .elementActivated => some .eventTriggering
  | .eventTriggering => some .eventTriggered
  | _ => none

/-- Whether a record is about a new entity, for which a key is drawn. -/
def Intent.isNew : Intent → Bool
  | .eventOccurred | .elementActivating | .eventTriggering => true
  | _ => false

namespace RecordValue

theorem withInstance_of_set {v : RecordValue} (h : v.instanceKey ≠ Key.unset) (k : Key) :
    v.withInstance k = v := by
  unfold withInstance instanceOr
  rw [if_neg h]

theorem instanceOr_of_set {v : RecordValue} (h : v.instanceKey ≠ Key.unset) (k : Key) :
    v.instanceOr k = v.instanceKey := if_neg h

end RecordValue

namespace Record

/-- The token that an event leaves behind. -/
def token (ev : Record) : Token := ⟨ev.key, ev.value.withInstance ev.key⟩

/-- The value with which an event activates its container. -/
def scopeValue (ev : Record) (scopeId : String) : RecordValue :=
  { ev.value.withInstance ev.key with elementId := scopeId }

/-- The value with which an event is triggered in an activated container. -/
def startValue (ev : Record) (scopeKey : Key) : RecordValue :=
  { ev.value.withInstance ev.key with scopeKey }

/-- What is tracked of an activated container. -/
def tracked (a : Record) : ElementInstance :=
  ⟨a.key, a.value.scopeKey, a.value.instanceKey, a.value.elementId, .elementActivated⟩

theorem instanceKey_ne_unset {ev : Record} (h : ev.key ≠ Key.unset) :
    ev.instanceKey ≠ Key.unset := by
  unfold instanceKey RecordValue.instanceOr
  split
  · exact h
  · assumption

end Record

namespace Log

/-! ## Descent -/

/-- A record descends from another one if it was emitted while that one, or a
    descendant of it, was handled. -/
inductive Descends (l : Log) (ev : Record) : Record → Prop where
  /-- A follow-up descends from its source. -/
  | child {r : Record} : r ∈ l.followUps ev.position → Descends l ev r
  /-- So does a follow-up of a descendant. -/
  | trans {q r : Record} : Descends l ev q → r ∈ l.followUps q.position → Descends l ev r

/-- The records of the story of an event that a deployed container waits for. -/
inductive Story (repo : Repository) (l : Log) (ev : Record) : Record → Prop where
  /-- The event occurs. -/
  | occurred {scope : Container} {start : CatchEvent} :
      ev ∈ l.records → ev.intent = .eventOccurred → ev.sourcePosition = none →
      repo.Awaits ev.value scope start → Story repo l ev ev
  /-- Its container is activated. -/
  | activating {scope : Container} {start : CatchEvent} {a : Record} :
      Story repo l ev ev → repo.Awaits ev.value scope start → a ∈ l.followUps ev.position →
      a.intent = .elementActivating → a.value = ev.scopeValue scope.id → Story repo l ev a
  /-- The container is active. -/
  | activated {a b : Record} :
      Story repo l ev a → a.intent = .elementActivating → b ∈ l.followUps a.position →
      b.intent = .elementActivated → b.key = a.key → b.value = a.value → Story repo l ev b
  /-- The event is triggered as its start event. -/
  | triggering {b c : Record} :
      Story repo l ev b → b.intent = .elementActivated → c ∈ l.followUps b.position →
      c.intent = .eventTriggering → c.value = ev.startValue b.key → Story repo l ev c
  /-- The start event is acknowledged. -/
  | triggered {c d : Record} :
      Story repo l ev c → c.intent = .eventTriggering → d ∈ l.followUps c.position →
      d.intent = .eventTriggered → d.key = c.key → d.value = c.value → Story repo l ev d

variable {repo : Repository} {l : Log} {ev ev' r s : Record}

namespace Story

theorem mem (h : Story repo l ev r) : r ∈ l.records := by
  cases h with
  | occurred hmem => exact hmem
  | activating _ _ hfollow => exact (mem_followUps.mp hfollow).1
  | activated _ _ hfollow => exact (mem_followUps.mp hfollow).1
  | triggering _ _ hfollow => exact (mem_followUps.mp hfollow).1
  | triggered _ _ hfollow => exact (mem_followUps.mp hfollow).1

/-- A story begins with its event. -/
theorem event (h : Story repo l ev r) : Story repo l ev ev := by
  induction h with
  | occurred hmem hintent hsource hawaits => exact .occurred hmem hintent hsource hawaits
  | activating hev => exact hev
  | activated _ _ _ _ _ _ ih => exact ih
  | triggering _ _ _ _ _ ih => exact ih
  | triggered _ _ _ _ _ _ ih => exact ih

theorem event_intent (h : Story repo l ev r) : ev.intent = .eventOccurred := by
  induction h with
  | occurred _ hintent => exact hintent
  | activating _ _ _ _ _ ih => exact ih
  | activated _ _ _ _ _ _ ih => exact ih
  | triggering _ _ _ _ _ ih => exact ih
  | triggered _ _ _ _ _ _ ih => exact ih

/-- A deployed container waits for the event. -/
theorem awaits (h : Story repo l ev r) : ∃ scope start, repo.Awaits ev.value scope start := by
  induction h with
  | occurred _ _ _ hawaits => exact ⟨_, _, hawaits⟩
  | activating _ hawaits => exact ⟨_, _, hawaits⟩
  | activated _ _ _ _ _ _ ih => exact ih
  | triggering _ _ _ _ _ ih => exact ih
  | triggered _ _ _ _ _ _ ih => exact ih

/-- What a story tells of a record. -/
def Stage (repo : Repository) (l : Log) (ev r : Record) : Prop :=
  match r.intent with
  | .eventOccurred => r = ev ∧ ev.sourcePosition = none
  | .elementActivating => ∃ scope start, repo.Awaits ev.value scope start ∧
      r ∈ l.followUps ev.position ∧ r.value = ev.scopeValue scope.id
  | .elementActivated => ∃ a, Story repo l ev a ∧ a.intent = .elementActivating ∧
      r ∈ l.followUps a.position ∧ r.key = a.key ∧ r.value = a.value
  | .eventTriggering => ∃ b, Story repo l ev b ∧ b.intent = .elementActivated ∧
      r ∈ l.followUps b.position ∧ r.value = ev.startValue b.key
  | .eventTriggered => ∃ c, Story repo l ev c ∧ c.intent = .eventTriggering ∧
      r ∈ l.followUps c.position ∧ r.key = c.key ∧ r.value = c.value
  | _ => False

theorem stage (h : Story repo l ev r) : Stage repo l ev r := by
  unfold Stage
  cases h with
  | occurred _ hintent hsource =>
    rw [hintent]
    exact ⟨rfl, hsource⟩
  | activating _ hawaits hfollow hintent hvalue =>
    rw [hintent]
    exact ⟨_, _, hawaits, hfollow, hvalue⟩
  | activated ha haintent hfollow hintent hkey hvalue =>
    rw [hintent]
    exact ⟨_, ha, haintent, hfollow, hkey, hvalue⟩
  | triggering hb hbintent hfollow hintent hvalue =>
    rw [hintent]
    exact ⟨_, hb, hbintent, hfollow, hvalue⟩
  | triggered hc hcintent hfollow hintent hkey hvalue =>
    rw [hintent]
    exact ⟨_, hc, hcintent, hfollow, hkey, hvalue⟩

theorem of_occurred (h : Story repo l ev r) (hr : r.intent = .eventOccurred) :
    r = ev ∧ ev.sourcePosition = none := by
  simpa only [Stage, hr] using h.stage

theorem of_activating (h : Story repo l ev r) (hr : r.intent = .elementActivating) :
    ∃ scope start, repo.Awaits ev.value scope start ∧ r ∈ l.followUps ev.position ∧
      r.value = ev.scopeValue scope.id := by
  simpa only [Stage, hr] using h.stage

theorem of_activated (h : Story repo l ev r) (hr : r.intent = .elementActivated) :
    ∃ a, Story repo l ev a ∧ a.intent = .elementActivating ∧ r ∈ l.followUps a.position ∧
      r.key = a.key ∧ r.value = a.value := by
  simpa only [Stage, hr] using h.stage

theorem of_triggering (h : Story repo l ev r) (hr : r.intent = .eventTriggering) :
    ∃ b, Story repo l ev b ∧ b.intent = .elementActivated ∧ r ∈ l.followUps b.position ∧
      r.value = ev.startValue b.key := by
  simpa only [Stage, hr] using h.stage

theorem of_triggered (h : Story repo l ev r) (hr : r.intent = .eventTriggered) :
    ∃ c, Story repo l ev c ∧ c.intent = .eventTriggering ∧ r ∈ l.followUps c.position ∧
      r.key = c.key ∧ r.value = c.value := by
  simpa only [Stage, hr] using h.stage

/-- An active container has the value of its activation. -/
theorem scope_value (h : Story repo l ev r)
    (hr : r.intent = .elementActivating ∨ r.intent = .elementActivated) :
    ∃ scope start, repo.Awaits ev.value scope start ∧ r.value = ev.scopeValue scope.id := by
  rcases hr with hr | hr
  · obtain ⟨scope, start, hawaits, -, hvalue⟩ := h.of_activating hr
    exact ⟨scope, start, hawaits, hvalue⟩
  · obtain ⟨a, ha, haintent, -, -, hsame⟩ := h.of_activated hr
    obtain ⟨scope, start, hawaits, -, hvalue⟩ := ha.of_activating haintent
    exact ⟨scope, start, hawaits, hsame.trans hvalue⟩

theorem not_terminating (h : Story repo l ev r) : r.intent ≠ .elementTerminating := by
  intro hr
  simpa only [Stage, hr] using h.stage

/-- Appending a record changes no story. -/
theorem append (h : Story repo l ev r) (x : PendingRecord) : Story repo (l.append x) ev r := by
  induction h with
  | occurred hmem hintent hsource hawaits =>
    exact .occurred (List.mem_append_left _ hmem) hintent hsource hawaits
  | activating _ hawaits hfollow hintent hvalue ih =>
    exact .activating ih hawaits (followUps_subset_append hfollow x) hintent hvalue
  | activated _ ha hfollow hintent hkey hvalue ih =>
    exact .activated ih ha (followUps_subset_append hfollow x) hintent hkey hvalue
  | triggering _ hb hfollow hintent hvalue ih =>
    exact .triggering ih hb (followUps_subset_append hfollow x) hintent hvalue
  | triggered _ hc hfollow hintent hkey hvalue ih =>
    exact .triggered ih hc (followUps_subset_append hfollow x) hintent hkey hvalue

end Story

/-! ## One story for each record -/

/-- A record is the follow-up of at most one record. -/
theorem Numbered.eq_of_followUps (hnum : l.Numbered) {q q' : Record} (hq : q ∈ l.records)
    (hq' : q' ∈ l.records) (h : r ∈ l.followUps q.position)
    (h' : r ∈ l.followUps q'.position) : q = q' := by
  have hsource := (mem_followUps.mp h).2
  have hsource' := (mem_followUps.mp h').2
  exact hnum.eq_of_position hq hq' (Option.some.inj (hsource.symm.trans hsource'))

namespace Story

/-- The source of a record is part of its story. -/
theorem source (hnum : l.Numbered) (h : Story repo l ev r) {q : Record} (hq : q ∈ l.records)
    (hr : r ∈ l.followUps q.position) : Story repo l ev q := by
  cases h with
  | occurred _ _ hsource =>
    have hsome := (mem_followUps.mp hr).2
    rw [hsource] at hsome
    cases hsome
  | activating hev _ hfollow => exact hnum.eq_of_followUps hev.mem hq hfollow hr ▸ hev
  | activated ha _ hfollow => exact hnum.eq_of_followUps ha.mem hq hfollow hr ▸ ha
  | triggering hb _ hfollow => exact hnum.eq_of_followUps hb.mem hq hfollow hr ▸ hb
  | triggered hc _ hfollow => exact hnum.eq_of_followUps hc.mem hq hfollow hr ▸ hc

/-- A story goes from one intent to the next. -/
theorem successor (hnum : l.Numbered) (h : Story repo l ev r) {q : Record} (hq : q ∈ l.records)
    (hr : r ∈ l.followUps q.position) : q.intent.successor? = some r.intent := by
  cases h with
  | occurred _ _ hsource =>
    have hsome := (mem_followUps.mp hr).2
    rw [hsource] at hsome
    cases hsome
  | activating hev _ hfollow hintent =>
    obtain rfl := hnum.eq_of_followUps hev.mem hq hfollow hr
    rw [hev.event_intent, hintent]
    rfl
  | activated ha haintent hfollow hintent =>
    obtain rfl := hnum.eq_of_followUps ha.mem hq hfollow hr
    rw [haintent, hintent]
    rfl
  | triggering hb hbintent hfollow hintent =>
    obtain rfl := hnum.eq_of_followUps hb.mem hq hfollow hr
    rw [hbintent, hintent]
    rfl
  | triggered hc hcintent hfollow hintent =>
    obtain rfl := hnum.eq_of_followUps hc.mem hq hfollow hr
    rw [hcintent, hintent]
    rfl

/-- A record is part of one story only. -/
theorem unique (hnum : l.Numbered) (h : Story repo l ev r) (h' : Story repo l ev' r) :
    ev = ev' := by
  -- Along the first story: the source of a record is part of the second one as well.
  induction h with
  | occurred _ hintent => exact (h'.of_occurred hintent).1
  | activating hev _ hfollow hintent =>
    obtain ⟨_, _, _, hfollow', _⟩ := h'.of_activating hintent
    exact hnum.eq_of_followUps hev.mem h'.event.mem hfollow hfollow'
  | activated ha _ hfollow _ _ _ ih => exact ih (h'.source hnum ha.mem hfollow)
  | triggering hb _ hfollow _ _ ih => exact ih (h'.source hnum hb.mem hfollow)
  | triggered hc _ hfollow _ _ _ ih => exact ih (h'.source hnum hc.mem hfollow)

/-- If no record has two follow-ups, a story has one record of an intent. -/
theorem eq_of_intent (hsingle : ∀ q, ∀ r ∈ l.followUps q, ∀ s ∈ l.followUps q, r = s)
    (h : Story repo l ev r) (h' : Story repo l ev s) (heq : s.intent = r.intent) : r = s := by
  -- The sources have one intent too, so by induction they are one record.
  induction h generalizing s with
  | occurred _ hintent => exact (h'.of_occurred (heq.trans hintent)).1.symm
  | activating _ _ hfollow hintent =>
    obtain ⟨_, _, _, hfollow', _⟩ := h'.of_activating (heq.trans hintent)
    exact hsingle _ _ hfollow _ hfollow'
  | activated _ ha hfollow hintent _ _ ih =>
    obtain ⟨a', ha', haintent, hfollow', _⟩ := h'.of_activated (heq.trans hintent)
    obtain rfl := ih ha' (haintent.trans ha.symm)
    exact hsingle _ _ hfollow _ hfollow'
  | triggering _ hb hfollow hintent _ ih =>
    obtain ⟨b', hb', hbintent, hfollow', _⟩ := h'.of_triggering (heq.trans hintent)
    obtain rfl := ih hb' (hbintent.trans hb.symm)
    exact hsingle _ _ hfollow _ hfollow'
  | triggered _ hc hfollow hintent _ _ ih =>
    obtain ⟨c', hc', hcintent, hfollow', _⟩ := h'.of_triggered (heq.trans hintent)
    obtain rfl := ih hc' (hcintent.trans hc.symm)
    exact hsingle _ _ hfollow _ hfollow'

end Story

/-! ## How stories continue -/

theorem Story.record_activating {scope : Container} {start : CatchEvent} (h : Story repo l ev ev)
    (hawaits : repo.Awaits ev.value scope start) {x : PendingRecord}
    (hx : x = .followUp .elementActivating (ev.scopeValue scope.id) ev.position) :
    Story repo (l.append x) ev (l.record x) := by
  subst hx
  exact .activating (h.append _) hawaits (l.record_mem_followUps rfl) rfl rfl

theorem Story.record_activated (h : Story repo l ev r) (hr : r.intent = .elementActivating)
    {x : PendingRecord}
    (hx : x = (PendingRecord.followUp .elementActivated r.value r.position).withKey r.key) :
    Story repo (l.append x) ev (l.record x) := by
  subst hx
  exact .activated (h.append _) hr (l.record_mem_followUps rfl) rfl (l.record_key_of_some rfl) rfl

theorem Story.record_triggering (h : Story repo l ev r) (hr : r.intent = .elementActivated)
    {x : PendingRecord} (hx : x = .followUp .eventTriggering (ev.startValue r.key) r.position) :
    Story repo (l.append x) ev (l.record x) := by
  subst hx
  exact .triggering (h.append _) hr (l.record_mem_followUps rfl) rfl rfl

theorem Story.record_triggered (h : Story repo l ev r) (hr : r.intent = .eventTriggering)
    {x : PendingRecord}
    (hx : x = (PendingRecord.followUp .eventTriggered r.value r.position).withKey r.key) :
    Story repo (l.append x) ev (l.record x) := by
  subst hx
  exact .triggered (h.append _) hr (l.record_mem_followUps rfl) rfl (l.record_key_of_some rfl) rfl

/-! ## All records of a log -/

/-- A record of a log of stories and terminations. -/
inductive Known (repo : Repository) (l : Log) : Record → Prop where
  /-- The record is part of a story. -/
  | story {ev r : Record} : Story repo l ev r → Known repo l r
  /-- A container that was activated before is to be terminated. -/
  | terminating {ev a t : Record} :
      Story repo l ev a → a.intent = .elementActivating → a.position < t.position →
      t.intent = .elementTerminating → t.sourcePosition = none → t.key = a.key →
      t.value = a.value → Known repo l t
  /-- The termination of a container is acknowledged. -/
  | terminated {ev a t t' : Record} :
      Story repo l ev a → a.intent = .elementActivating → t ∈ l.records →
      t.intent = .elementTerminating → t' ∈ l.followUps t.position →
      t'.intent = .elementTerminated → t'.value = a.value → Known repo l t'

theorem Known.append (h : Known repo l r) (x : PendingRecord) : Known repo (l.append x) r := by
  cases h with
  | story h => exact .story (h.append x)
  | terminating ha haintent hpos hintent hsource hkey hvalue =>
    exact .terminating (ha.append x) haintent hpos hintent hsource hkey hvalue
  | terminated ha haintent ht htintent hfollow hintent hvalue =>
    exact .terminated (ha.append x) haintent (List.mem_append_left _ ht) htintent
      (followUps_subset_append hfollow x) hintent hvalue

/-- What is no termination is part of a story. -/
theorem Known.story_of_intent (h : Known repo l r) {i : Intent} (hr : r.intent = i)
    (hi : i ≠ .elementTerminating ∧ i ≠ .elementTerminated) : ∃ ev, Story repo l ev r := by
  cases h with
  | story h => exact ⟨_, h⟩
  | terminating _ _ _ hr' => exact absurd (hr.symm.trans hr') hi.1
  | terminated _ _ _ _ _ hr' => exact absurd (hr.symm.trans hr') hi.2

theorem Known.of_terminating (h : Known repo l r) (hr : r.intent = .elementTerminating) :
    ∃ ev a, Story repo l ev a ∧ a.intent = .elementActivating ∧ a.position < r.position ∧
      r.key = a.key ∧ r.value = a.value := by
  cases h with
  | story h => exact absurd hr h.not_terminating
  | terminating ha haintent hpos _ _ hkey hvalue =>
    exact ⟨_, _, ha, haintent, hpos, hkey, hvalue⟩
  | terminated _ _ _ _ _ hintent =>
    rw [hr] at hintent
    cases hintent

/-- A follow-up belongs to the story of its source. -/
theorem Known.story_of_followUps (hnum : l.Numbered) (h : Known repo l r) {q : Record}
    (hq : Story repo l ev q) (hr : r ∈ l.followUps q.position) : Story repo l ev r := by
  cases h with
  | story h => exact (h.source hnum hq.mem hr).unique hnum hq ▸ h
  | terminating _ _ _ _ hsource =>
    have hsome := (mem_followUps.mp hr).2
    rw [hsource] at hsome
    cases hsome
  | terminated _ _ ht htintent hfollow =>
    -- It would follow a termination, which is part of no story.
    obtain rfl := hnum.eq_of_followUps ht hq.mem hfollow hr
    exact absurd htintent hq.not_terminating

/-- New entities have keys of their own. -/
structure Drawn (l : Log) : Prop where
  /-- New entities take the keys that were drawn. -/
  drawn : ∀ r ∈ l.records, r.intent.isNew = true →
    ∃ c, c < l.nextKey ∧ r.key = Key.encode l.partitionId (c : Nat)
  /-- New entities have different keys. -/
  distinct : ∀ r ∈ l.records, ∀ s ∈ l.records, r.intent.isNew = true →
    s.intent.isNew = true → r.key = s.key → r = s

theorem mem_append_records {x : PendingRecord} (h : r ∈ (l.append x).records) :
    r ∈ l.records ∨ r = l.record x := by
  simpa using h

/-- A record may join for which a key is drawn exactly if it is about a new entity. -/
theorem Drawn.append (h : l.Drawn) {x : PendingRecord} (hx : x.key.isNone = x.intent.isNew) :
    (l.append x).Drawn := by
  have hnext := nextKey_le_append l x
  -- Keys of the log were drawn before the one of the new record.
  have hother : ∀ {r}, r ∈ l.records → r.intent.isNew = true → x.intent.isNew = true →
      r.key ≠ (l.record x).key := by
    intro r hr hnew hxnew heq
    obtain ⟨c, hc, hkey⟩ := h.drawn r hr hnew
    have hnone : x.key = none := Option.isNone_iff_eq_none.mp (hx.trans hxnew)
    rw [hkey, l.record_key_of_none hnone] at heq
    have hcn := Key.encode_injective heq
    omega
  refine ⟨?_, ?_⟩
  · intro r hr hnew
    rcases mem_append_records hr with hr | rfl
    · obtain ⟨c, hc, hkey⟩ := h.drawn r hr hnew
      exact ⟨c, by omega, hkey⟩
    · have hnone : x.key = none := Option.isNone_iff_eq_none.mp (hx.trans hnew)
      refine ⟨l.nextKey, ?_, l.record_key_of_none hnone⟩
      simp [Log.append, hnone]
  · intro r hr s hs hrnew hsnew heq
    rcases mem_append_records hr with hr | rfl
    · rcases mem_append_records hs with hs | rfl
      · exact h.distinct r hr s hs hrnew hsnew heq
      · exact absurd heq (hother hr hrnew hsnew)
    · rcases mem_append_records hs with hs | rfl
      · exact absurd heq.symm (hother hs hsnew hrnew)
      · rfl

/-- The log of a run in which the first `n` records have been handled. If
    `roots` holds, the events start workflow instances of their own, and their
    containers may be terminated. -/
structure Lineage (repo : Repository) (roots : Prop) (l : Log) (n : Nat) : Prop where
  /-- Positions count the records. -/
  numbered : l.Numbered
  /-- Only records of the log have been handled. -/
  reached : n ≤ l.lastPosition
  /-- Only handled records have follow-ups. -/
  handled : ∀ r ∈ l.records, ∀ q, r.sourcePosition = some q → q ≤ n
  /-- A record has at most one follow-up. -/
  single : ∀ q, ∀ r ∈ l.followUps q, ∀ s ∈ l.followUps q, r = s
  /-- There are stories and terminations only. -/
  known : ∀ r ∈ l.records, Known repo l r
  /-- Events start workflow instances of their own. -/
  rooted : roots → ∀ r ∈ l.records, r.intent = .eventOccurred →
    r.value.instanceKey = Key.unset ∧ r.value.scopeKey = Key.unset
  /-- Only the containers of such events are terminated. -/
  terminable : ∀ r ∈ l.records, r.intent = .elementTerminating → roots
  /-- New entities take the keys that were drawn. -/
  drawn : ∀ r ∈ l.records, r.intent.isNew = true →
    ∃ c, c < l.nextKey ∧ r.key = Key.encode l.partitionId (c : Nat)
  /-- New entities have different keys. -/
  distinct : ∀ r ∈ l.records, ∀ s ∈ l.records, r.intent.isNew = true →
    s.intent.isNew = true → r.key = s.key → r = s

namespace Lineage

variable {roots : Prop} {n m : Nat}

theorem fresh (repo : Repository) (roots : Prop) (id : PartitionId) :
    Lineage repo roots { partitionId := id } 0 where
  numbered := by
    intro i r hr
    simp at hr
  reached := Nat.le_refl 0
  handled := by
    intro r hr
    cases hr
  single := by
    intro q r hr
    cases hr
  known := by
    intro r hr
    cases hr
  rooted := by
    intro _ r hr
    cases hr
  terminable := by
    intro r hr
    cases hr
  drawn := by
    intro r hr
    cases hr
  distinct := by
    intro r hr
    cases hr

/-- A record may be handled without any follow-up. -/
theorem silent (h : Lineage repo roots l n) (hle : n ≤ m) (hm : m ≤ l.lastPosition) :
    Lineage repo roots l m :=
  { h with
    reached := hm
    handled := fun r hr q hq => Nat.le_trans (h.handled r hr q hq) hle }

/-- What a record has to be so that it may join a log when `m` records have been
    handled, and `n` of them before. -/
structure Joins (repo : Repository) (roots : Prop) (l : Log) (n m : Nat) (x : PendingRecord) :
    Prop where
  /-- It comes from outside or is the first follow-up of a record. -/
  source : ∀ q, x.sourcePosition = some q → n < q ∧ q ≤ m
  /-- It is part of a story or a termination. -/
  known : Known repo (l.append x) (l.record x)
  /-- An event starts a workflow instance of its own. -/
  rooted : roots → x.intent = .eventOccurred →
    x.value.instanceKey = Key.unset ∧ x.value.scopeKey = Key.unset
  /-- Only the containers of such events are terminated. -/
  terminable : x.intent = .elementTerminating → roots
  /-- A key is drawn for a new entity and for no other. -/
  key : x.key.isNone = x.intent.isNew

theorem append (h : Lineage repo roots l n) {x : PendingRecord} (hle : n ≤ m)
    (hm : m ≤ l.lastPosition) (hx : Joins repo roots l n m x) :
    Lineage repo roots (l.append x) m := by
  have hdrawn : (l.append x).Drawn := Drawn.append ⟨h.drawn, h.distinct⟩ hx.key
  -- No record of the log has a follow-up of the new record's source.
  have hfirst : ∀ {r q}, r ∈ l.records → r.sourcePosition = some q →
      x.sourcePosition ≠ some q := by
    intro r q hr hq hxq
    have hold := h.handled r hr q hq
    have hnew := (hx.source q hxq).1
    omega
  refine ⟨h.numbered.append x, ?_, ?_, ?_, ?_, ?_, ?_, hdrawn.drawn, hdrawn.distinct⟩
  · rw [lastPosition_append]
    omega
  · intro r hr q hq
    rcases mem_append_records hr with hr | rfl
    · exact Nat.le_trans (h.handled r hr q hq) hle
    · exact (hx.source q hq).2
  · -- The first follow-up of a record has no other beside it.
    intro q r hr s hs
    obtain ⟨hr, hrq⟩ := mem_followUps.mp hr
    obtain ⟨hs, hsq⟩ := mem_followUps.mp hs
    rcases mem_append_records hr with hr | rfl
    · rcases mem_append_records hs with hs | rfl
      · exact h.single q r (mem_followUps.mpr ⟨hr, hrq⟩) s (mem_followUps.mpr ⟨hs, hsq⟩)
      · exact absurd hsq (hfirst hr hrq)
    · rcases mem_append_records hs with hs | rfl
      · exact absurd hrq (hfirst hs hsq)
      · rfl
  · intro r hr
    rcases mem_append_records hr with hr | rfl
    · exact (h.known r hr).append x
    · exact hx.known
  · intro hroots r hr hintent
    rcases mem_append_records hr with hr | rfl
    · exact h.rooted hroots r hr hintent
    · exact hx.rooted hroots hintent
  · intro r hr hintent
    rcases mem_append_records hr with hr | rfl
    · exact h.terminable r hr hintent
    · exact hx.terminable hintent

theorem next_record (h : Lineage repo roots l n) (hr : l.read? (n + 1) = some r) :
    r ∈ l.records ∧ r.position = n + 1 ∧ n + 1 ≤ l.lastPosition := by
  obtain ⟨hmem, hpos⟩ := h.numbered.read?_eq_some_iff.mp hr
  exact ⟨hmem, hpos, hpos ▸ (h.numbered.position_le hmem).2⟩

/-- The next record may be handled with a follow-up. -/
theorem append_followUp (h : Lineage repo roots l n) (hr : l.read? (n + 1) = some r)
    {x : PendingRecord} (hsource : x.sourcePosition = some r.position)
    (hknown : Known repo (l.append x) (l.record x)) (hintent : x.intent ≠ .eventOccurred)
    (hintent' : x.intent ≠ .elementTerminating) (hkey : x.key.isNone = x.intent.isNew) :
    Lineage repo roots (l.append x) (n + 1) := by
  obtain ⟨-, hpos, hle⟩ := h.next_record hr
  refine h.append (Nat.le_succ n) hle ⟨?_, hknown, ?_, ?_, hkey⟩
  · intro q hq
    rw [hsource, hpos] at hq
    obtain rfl : n + 1 = q := Option.some.inj hq
    exact ⟨Nat.lt_succ_self n, Nat.le_refl _⟩
  · intro _ hoccurred
    exact absurd hoccurred hintent
  · intro hterminating
    exact absurd hterminating hintent'

/-! ## What a lineage tells of keys -/

theorem key_ne_unset (h : Lineage repo roots l n) (hkeys : l.nextKey < Key.counters)
    (hr : r ∈ l.records) (hnew : r.intent.isNew = true) : r.key ≠ Key.unset := by
  obtain ⟨c, hc, hkey⟩ := h.drawn r hr hnew
  rw [hkey]
  exact Key.encode_ne_unset (Nat.lt_of_le_of_lt hc hkeys)

/-- The workflow instance of an event is set in all that follows. -/
theorem instanceKey_ne_unset (h : Lineage repo roots l n) (hkeys : l.nextKey < Key.counters)
    (hev : Story repo l ev r) : ev.instanceKey ≠ Key.unset :=
  Record.instanceKey_ne_unset
    (h.key_ne_unset hkeys hev.event.mem (by rw [hev.event_intent]; rfl))

/-- A key belongs to one activation. -/
theorem eq_of_activating (h : Lineage repo roots l n) (hr : r ∈ l.records)
    (hintent : r.intent = .elementActivating) (hs : s ∈ l.records)
    (hintent' : s.intent = .elementActivating) (heq : r.key = s.key) : r = s :=
  h.distinct r hr s hs (by rw [hintent]; rfl) (by rw [hintent']; rfl) heq

/-- An active container is active under the key of its activation. -/
theorem activation_eq (h : Lineage repo roots l n) {a b : Record} (ha : a ∈ l.records)
    (haintent : a.intent = .elementActivating) (hb : Story repo l ev b)
    (hbintent : b.intent = .elementActivated) (hkey : b.key = a.key) :
    b ∈ l.followUps a.position ∧ b.value = a.value := by
  obtain ⟨a', ha', haintent', hfollow, hkey', hvalue⟩ := hb.of_activated hbintent
  obtain rfl := h.eq_of_activating ha'.mem haintent' ha haintent (hkey'.symm.trans hkey)
  exact ⟨hfollow, hvalue⟩

/-- A container that may be terminated belongs to the workflow instance that its
    event starts. -/
theorem instanceKey_eq (h : Lineage repo roots l n) (hroots : roots) (hr : Story repo l ev r)
    (hintent : r.intent = .elementActivating ∨ r.intent = .elementActivated) :
    r.value.instanceKey = ev.key := by
  obtain ⟨scope, start, -, hvalue⟩ := hr.scope_value hintent
  have hunset := (h.rooted hroots ev hr.event.mem hr.event_intent).1
  rw [hvalue]
  exact if_pos hunset

/-- Two such containers of one workflow instance belong to one story. -/
theorem event_eq (h : Lineage repo roots l n) (hroots : roots) (hr : Story repo l ev r)
    (hintent : r.intent = .elementActivating ∨ r.intent = .elementActivated)
    (hs : Story repo l ev' s)
    (hintent' : s.intent = .elementActivating ∨ s.intent = .elementActivated)
    (heq : r.value.instanceKey = s.value.instanceKey) : ev = ev' := by
  rw [h.instanceKey_eq hroots hr hintent, h.instanceKey_eq hroots hs hintent'] at heq
  exact h.distinct ev hr.event.mem ev' hs.event.mem (by rw [hr.event_intent]; rfl)
    (by rw [hs.event_intent]; rfl) heq

/-- A record from outside that is no termination is the event of a story. -/
theorem story_of_external (h : Lineage repo roots l n) (hr : r ∈ l.records)
    (hsource : r.sourcePosition = none) (hintent : r.intent ≠ .elementTerminating) :
    Story repo l r r := by
  have hnone : ∀ {q}, r ∉ l.followUps q := by
    intro q hfollow
    have hsome := (mem_followUps.mp hfollow).2
    rw [hsource] at hsome
    cases hsome
  cases h.known r hr with
  | story hstory =>
    cases hstory with
    | occurred hmem hoccurred hexternal hawaits => exact .occurred hmem hoccurred hexternal hawaits
    | activating _ _ hfollow => exact absurd hfollow hnone
    | activated _ _ hfollow => exact absurd hfollow hnone
    | triggering _ _ hfollow => exact absurd hfollow hnone
    | triggered _ _ hfollow => exact absurd hfollow hnone
  | terminating _ _ _ hterminating => exact absurd hterminating hintent
  | terminated _ _ _ _ hfollow => exact absurd hfollow hnone

/-- The descendants of an event are its story. -/
theorem story_of_descends (h : Lineage repo roots l n) (hev : Story repo l ev ev)
    (hr : l.Descends ev r) : Story repo l ev r ∧ r.intent ≠ .eventOccurred := by
  have hlater : ∀ {q r}, Story repo l ev q → r ∈ l.followUps q.position →
      Story repo l ev r ∧ r.intent ≠ .eventOccurred := by
    intro q r hq hr
    obtain ⟨hmem, hsource⟩ := mem_followUps.mp hr
    have hstory := (h.known r hmem).story_of_followUps h.numbered hq hr
    refine ⟨hstory, fun hintent => ?_⟩
    -- The event itself has no source.
    obtain ⟨rfl, hnone⟩ := hstory.of_occurred hintent
    rw [hnone] at hsource
    cases hsource
  induction hr with
  | child hr => exact hlater hev hr
  | trans _ hr ih => exact hlater ih.1 hr

end Lineage

end Log

end WorkflowEngine
