import WorkflowEngine.Proofs.Log

/-! # Handles on a Log

    A log is reached through handles. Each handle knows the partition by
    itself, and all of them share the records and the counter of fresh keys; a
    handle is cloned from another one. `Handles.Run` is any sequence of clones
    and calls. Every handle shows the same log: the records that the calls have
    handed over in their order, one position after the other.
-/

namespace WorkflowEngine

/-! ## Calls -/

/-- What is asked of a log. -/
inductive LogCall where
  /-- To write a record from outside. -/
  | write (intent : Intent) (value : RecordValue)
  | append (p : PendingRecord)
  /-- To take over what a writer holds. -/
  | flush (w : Writer)

namespace LogCall

/-- The records that a call hands over in order. -/
def handed : LogCall → List PendingRecord
  | write intent value => [.external intent value]
  | append p => [p]
  | flush w => w.pending

/-- The log after a call. -/
def perform (l : Log) : LogCall → Log
  | write intent value => l.append (.external intent value)
  | append p => l.append p
  | flush w => (w.flush l).2

theorem perform_eq (l : Log) (c : LogCall) : c.perform l = l.appendAll c.handed := by
  cases c <;> rfl

end LogCall

/-! ## Handles -/

/-- The handles on one log. -/
structure Handles where
  /-- The partition as each handle knows it. -/
  partitions : List PartitionId
  /-- The records, which all handles share. -/
  records : List Record
  /-- The counter of fresh keys, which they share as well. -/
  nextKey : Nat

namespace Handles

/-- The handle that comes with a new log. -/
def new (id : PartitionId) : Handles := ⟨[id], [], 1⟩

/-- The log as a handle shows it. -/
def log? (h : Handles) (i : Nat) : Option Log :=
  h.partitions[i]?.map fun id => ⟨id, h.records, h.nextKey⟩

/-- One step: a handle is cloned, or a call is made through one. -/
inductive Step : Handles → List LogCall → Handles → Prop where
  | clone {h : Handles} {l : Log} (i : Nat) : h.log? i = some l →
      Step h [] { h with partitions := h.partitions ++ [l.partitionId] }
  | call {h : Handles} {l : Log} (i : Nat) (c : LogCall) : h.log? i = some l →
      Step h [c] { h with records := (c.perform l).records, nextKey := (c.perform l).nextKey }

/-- Any number of steps, with the calls made in them. -/
inductive Run : Handles → List LogCall → Handles → Prop where
  | refl (h : Handles) : Run h [] h
  | step {h h' h'' : Handles} {calls rest : List LogCall} :
      Step h calls h' → Run h' rest h'' → Run h (calls ++ rest) h''

/-- All handles are on the given log. -/
structure On (h : Handles) (l : Log) : Prop where
  partitions : ∀ id ∈ h.partitions, id = l.partitionId
  records : h.records = l.records
  nextKey : h.nextKey = l.nextKey

variable {h h' : Handles} {l l' : Log} {calls : List LogCall} {i : Nat}

theorem on_new (id : PartitionId) : (new id).On { partitionId := id } where
  partitions := by simp [new]
  records := rfl
  nextKey := rfl

theorem On.log?_eq (hon : h.On l) (hi : h.log? i = some l') : l' = l := by
  unfold log? at hi
  obtain ⟨id, hid, rfl⟩ := Option.map_eq_some_iff.mp hi
  obtain rfl := hon.partitions id (List.mem_of_getElem? hid)
  rw [hon.records, hon.nextKey]

/-- What a step does through one handle, all handles show. -/
theorem On.step (hon : h.On l) (hstep : Step h calls h') :
    h'.On (l.appendAll (calls.flatMap LogCall.handed)) := by
  cases hstep with
  | clone i hi =>
    obtain rfl := hon.log?_eq hi
    refine ⟨fun id hid => ?_, hon.records, hon.nextKey⟩
    rcases List.mem_append.mp hid with hid | hid
    · exact hon.partitions id hid
    · exact List.mem_singleton.mp hid
  | call i c hi =>
    obtain rfl := hon.log?_eq hi
    have hcall : [c].flatMap LogCall.handed = c.handed := by simp
    rw [hcall, ← LogCall.perform_eq]
    refine ⟨fun id hid => ?_, rfl, rfl⟩
    rw [LogCall.perform_eq, Log.appendAll_partitionId]
    exact hon.partitions id hid

theorem On.run (hon : h.On l) (hrun : Run h calls h') :
    h'.On (l.appendAll (calls.flatMap LogCall.handed)) := by
  induction hrun generalizing l with
  | refl h => exact hon
  | step hstep _ ih =>
    rw [List.flatMap_append, Log.appendAll_append]
    exact ih (hon.step hstep)

end Handles

/-! ## What a log shows -/

namespace Log

/-- The records that a log of a partition has made of those handed over. -/
structure Holds (l : Log) (id : PartitionId) (ps : List PendingRecord) : Prop where
  partition : l.partitionId = id
  dense : l.lastPosition = ps.length
  /-- A record takes the position of its place and keeps what it was handed over with. The
      `n`-th one without a key takes the key of counter `n`. -/
  record : ∀ i p, ps[i]? = some p → ∃ r, l.records[i]? = some r ∧ r.position = i + 1 ∧
    r.partitionId = id ∧ p.Becomes r ∧
    (p.key = none → r.key = Key.encode id (draws (ps.take (i + 1)) : Nat))

theorem holds_appendAll_new (id : PartitionId) (ps : List PendingRecord) :
    (({ partitionId := id } : Log).appendAll ps).Holds id ps where
  partition := appendAll_partitionId _ ps
  dense := by
    rw [lastPosition_appendAll]
    exact Nat.zero_add _
  record := by
    intro i p hp
    have hrecord := getElem?_appendAll_new id ps i
    rw [hp, Option.map_some] at hrecord
    refine ⟨_, hrecord, rfl, rfl, ⟨rfl, rfl, rfl, ?_⟩,
      fun hkey => key_of_draw hp hkey hrecord⟩
    intro k hk
    show p.key.getD _ = k
    rw [hk, Option.getD_some]

/-- Reading finds the records at their positions and nothing else. -/
structure Readable (l : Log) : Prop where
  found : ∀ q r, l.read? q = some r ↔ r ∈ l.records ∧ r.position = q
  within : ∀ q, (l.read? q).isSome ↔ 1 ≤ q ∧ q ≤ l.lastPosition
  /-- Reading on from a position finds what reading one position after the other does. -/
  onwards : ∀ q, l.recordsFrom q =
    (List.range' (max q 1) (l.lastPosition + 1 - max q 1)).filterMap l.read?
  suffix : ∀ q, l.recordsFrom q = l.records.filter fun r => max q 1 ≤ r.position
  past : ∀ q, l.lastPosition < q → l.recordsFrom q = []

theorem recordsFrom_eq_drop (l : Log) (q : Nat) :
    l.recordsFrom q = l.records.drop (max q 1 - 1) := by
  unfold recordsFrom
  congr 1
  omega

theorem Numbered.readable {l : Log} (h : l.Numbered) : l.Readable where
  found q r := h.read?_eq_some_iff
  within := l.isSome_read?
  onwards := by
    intro q
    obtain ⟨n, hn⟩ : ∃ n, max q 1 = n + 1 := ⟨max q 1 - 1, by omega⟩
    rw [recordsFrom_eq_drop, hn, Nat.add_sub_cancel, Nat.add_sub_add_right]
    rcases Nat.le_total n l.lastPosition with hle | hle
    · exact (l.filterMap_read? (Nat.add_sub_of_le hle).symm).symm
    · rw [List.drop_eq_nil_of_le hle, Nat.sub_eq_zero_of_le hle]
      rfl
  suffix := by
    intro q
    rw [recordsFrom_eq_drop, h.drop_eq_filter]
    refine List.filter_congr fun r _ => ?_
    simp only [decide_eq_decide]
    omega
  past := by
    intro q hq
    exact List.drop_eq_nil_of_le (Nat.le_sub_one_of_lt hq)

end Log

/-! ## Any calls through any handles -/

namespace Handles

variable {h : Handles} {calls : List LogCall} {id : PartitionId}

/-- **Logs behind handles.** However a new log is used: each handle shows one record for each
    that was handed over, in the order of the calls; reading finds them at their positions;
    later calls leave them alone; and what a writer holds comes as one block behind them, after
    which the writer is empty. -/
theorem every_handle_shows_calls (hrun : Run (new id) calls h) :
    (∀ i l, h.log? i = some l → l.Holds id (calls.flatMap LogCall.handed) ∧ l.Readable) ∧
    (∀ more h', Run h more h' → ∀ i l j l', h.log? i = some l → h'.log? j = some l' →
      l.records <+: l'.records) ∧
    (∀ w h', Step h [.flush w] h' → ∀ i l j l', h.log? i = some l → h'.log? j = some l' →
      (∃ block, l'.records = l.records ++ block ∧
        List.Forall₂ PendingRecord.Becomes w.pending block) ∧
      (w.flush l).1 = { sourcePosition := w.sourcePosition }) := by
  have hon := (on_new id).run hrun
  refine ⟨?_, ?_, ?_⟩
  · intro i l hi
    obtain rfl := hon.log?_eq hi
    exact ⟨Log.holds_appendAll_new id _, ((Log.numbered_new id).appendAll _).readable⟩
  · intro more h' hmore i l j l' hi hj
    obtain rfl := hon.log?_eq hi
    obtain rfl := (hon.run hmore).log?_eq hj
    rw [Log.appendAll_records _ (more.flatMap LogCall.handed)]
    exact List.prefix_append _ _
  · intro w h' hflush i l j l' hi hj
    obtain rfl := hon.log?_eq hi
    obtain rfl := (hon.step hflush).log?_eq hj
    refine ⟨⟨_, Log.appendAll_records _ _, ?_⟩, rfl⟩
    have hpending : [LogCall.flush w].flatMap LogCall.handed = w.pending := List.append_nil _
    rw [hpending]
    exact Log.entries_become _ _

/-- What a handler emitted about an entity and about a new one. -/
def emitted : Writer where
  sourcePosition := 1
  pending :=
    [(PendingRecord.followUp .elementActivated {} 1).withKey 7, .followUp .eventTriggering {} 1]

/-- A command written through one handle, and what a writer hands over through another one. -/
def commandAndFollowUps : List LogCall := [.write .elementActivating {}, .flush emitted]

/-- Both handles show the command and its follow-ups, of which one has drawn the second key. -/
theorem two_handles_show_calls :
    ∃ h l, Run (new 3) commandAndFollowUps h ∧ h.log? 1 = some l ∧
      l.Holds 3 (commandAndFollowUps.flatMap LogCall.handed) ∧ l.Readable ∧
      l.records.map (·.key) = [Key.encode 3 1, 7, Key.encode 3 2] := by
  have hrun : Run (new 3) commandAndFollowUps _ :=
    .step (.clone 0 rfl) (.step (.call 1 _ rfl) (.step (.call 0 _ rfl) (.refl _)))
  obtain ⟨hholds, hreadable⟩ := (every_handle_shows_calls hrun).1 1 _ rfl
  exact ⟨_, _, hrun, rfl, hholds, hreadable, rfl⟩

end Handles

end WorkflowEngine
