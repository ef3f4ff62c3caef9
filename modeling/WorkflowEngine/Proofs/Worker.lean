import WorkflowEngine.Proofs.Draining

/-! # Workers

    A worker drives the processor of one partition while others append to the
    same log. It rebuilds the state, processes records until it reads none, looks
    whether it was told to stop, and otherwise waits until it is notified.

    ### What is one step

    Appending a record and notifying the worker of it are two steps, for the
    records from outside as well as for the worker's own. So are the read that
    finds nothing, the look at the stop signal, and parking. In between, everyone
    else may take any number of steps.

    ### Notifications

    A notification wakes the worker if it is parked. Otherwise it is stored as a
    permit, of which there is at most one, and the next wait takes it at once.
-/

namespace WorkflowEngine

/-- Where a worker is in its loop. -/
inductive WorkerPhase where
  /-- It is about to rebuild the state from the log. -/
  | starting
  /-- It is about to read the next record. -/
  | reading
  /-- It has handled the next record: the state to take over, and the emitted
      records that are still to be appended. -/
  | writing (state : PartitionState) (rest : List PendingRecord)
  /-- It has appended an emitted record, and is about to notify of it. -/
  | notifying (state : PartitionState) (rest : List PendingRecord)
  /-- It has read nothing, and is about to look at the stop signal. -/
  | checking
  /-- It was not told to stop, and is about to wait. -/
  | waiting
  /-- It waits. -/
  | parked
  /-- It was notified while it waited, and is about to go on. -/
  | woken
  /-- It was told to stop, and has ended. -/
  | stopped
  deriving DecidableEq

/-- What a worker is told about stopping. -/
structure StopSignal where
  /-- Whether it is to stop. -/
  raised : Bool := false
  /-- Whether something was said that a wait has not noticed. -/
  changed : Bool := false
  /-- Whether nothing can be said any more. -/
  dropped : Bool := false
  deriving DecidableEq

/-- What goes on around the processor of a partition. -/
structure Activity where
  phase : WorkerPhase := .starting
  /-- Whether a notification is stored. -/
  permit : Bool := false
  /-- The number of appenders that have appended a record and not notified yet. -/
  appending : Nat := 0
  stop : StopSignal := {}
  deriving DecidableEq

/-- A worker with its partition. -/
structure Worker extends Activity where
  partition : Partition
  deriving DecidableEq

namespace Activity

/-- Notify the worker. -/
def notify (a : Activity) : Activity :=
  match a.phase with
  | .parked => { a with phase := .woken }
  | _ => { a with permit := true }

/-- Tell the worker to stop, or not to. -/
def signal (a : Activity) (raised : Bool) : Activity :=
  { a with stop := { a.stop with raised, changed := true } }

theorem notify_of_parked {a : Activity} (h : a.phase = .parked) :
    a.notify = { a with phase := .woken } := by
  unfold notify
  rw [h]

theorem notify_of_not_parked {a : Activity} (h : a.phase ≠ .parked) :
    a.notify = { a with permit := true } := by
  unfold notify
  split
  · rename_i hparked
    exact absurd hparked h
  · rfl

end Activity

namespace WorkerPhase

/-- Whether a wait is going on, which notices a change of the stop signal. -/
def isListening : WorkerPhase → Bool
  | .waiting | .parked | .woken => true
  | _ => false

/-- Whether the worker has read nothing, and has not read again since. -/
def isDrained : WorkerPhase → Bool
  | .checking | .waiting | .parked | .woken | .stopped => true
  | _ => false

/-- Whether the worker has nothing to do unless something happens. -/
def isIdle : WorkerPhase → Bool
  | .parked | .stopped => true
  | _ => false

theorem isDrained_of_isListening {phase : WorkerPhase} (h : phase.isListening = true) :
    phase.isDrained = true := by
  cases phase <;> first | rfl | cases h

theorem isDrained_of_isIdle {phase : WorkerPhase} (h : phase.isIdle = true) :
    phase.isDrained = true := by
  cases phase <;> first | rfl | cases h

end WorkerPhase

namespace Worker

variable (e : Engine)

/-! ## Steps -/

/-- The steps that a worker takes by itself. -/
inductive Acts : Worker → Worker → Prop where
  /-- The state is rebuilt. -/
  | recover {w : Worker} : w.phase = .starting →
      Acts w { w with partition := (e.recover w.partition).2, phase := .reading }
  /-- The next record is read and handled. -/
  | read {w : Worker} {r : Record} : w.phase = .reading →
      w.partition.log.read? (w.partition.processor.lastProcessed + 1) = some r →
      Acts w { w with phase := .writing (e.handle w.partition.processor.state r).2.1
                        (e.handle w.partition.processor.state r).2.2 }
  /-- An emitted record is appended. -/
  | write {w : Worker} {s : PartitionState} {x : PendingRecord} {rest : List PendingRecord} :
      w.phase = .writing s (x :: rest) →
      Acts w { w with partition := w.partition.append x, phase := .notifying s rest }
  /-- The worker notifies itself of it. -/
  | notify {w : Worker} {s : PartitionState} {rest : List PendingRecord} :
      w.phase = .notifying s rest →
      Acts w { w with toActivity := { w.toActivity.notify with phase := .writing s rest } }
  /-- Everything is appended, and the state is taken over. -/
  | moveOn {w : Worker} {s : PartitionState} : w.phase = .writing s [] →
      Acts w { w with
        partition := ⟨w.partition.log, ⟨s, w.partition.processor.lastProcessed + 1⟩⟩
        phase := .reading }
  /-- There is no next record. -/
  | readNothing {w : Worker} : w.phase = .reading →
      w.partition.log.read? (w.partition.processor.lastProcessed + 1) = none →
      Acts w { w with phase := .checking }
  /-- The worker was told to stop. -/
  | obey {w : Worker} : w.phase = .checking → w.stop.raised = true →
      Acts w { w with phase := .stopped }
  /-- The worker was not told to stop. -/
  | stay {w : Worker} : w.phase = .checking → w.stop.raised = false →
      Acts w { w with phase := .waiting }
  /-- The wait takes the stored permit. -/
  | takePermit {w : Worker} : w.phase = .waiting → w.permit = true →
      Acts w { w with permit := false, phase := .reading }
  /-- There is nothing to go on for. -/
  | park {w : Worker} : w.phase = .waiting → w.permit = false → w.stop.changed = false →
      w.stop.dropped = false → Acts w { w with phase := .parked }
  /-- A notification ends the wait. -/
  | wake {w : Worker} : w.phase = .woken → Acts w { w with phase := .reading }
  /-- A change of the stop signal ends the wait. A notification that has come
      in meanwhile is stored. -/
  | notice {w : Worker} : w.phase.isListening = true → w.stop.changed = true →
      Acts w { w with
        permit := w.permit || w.phase = .woken
        stop := { w.stop with changed := false }
        phase := if w.stop.raised then .stopped else .reading }
  /-- A wait is of no use any more when nothing can be said. -/
  | giveUp {w : Worker} : w.phase.isListening = true → w.stop.changed = false →
      w.stop.dropped = true → Acts w { w with phase := .stopped }

/-- The steps of a worker and of everyone around it. -/
inductive Step : Worker → Worker → Prop where
  /-- The worker takes a step. -/
  | act {w w' : Worker} : Acts e w w' → Step w w'
  /-- An appender appends a record. While the state is not rebuilt, its source,
      if it has one, is a record of the log. -/
  | append {w : Worker} (x : PendingRecord) :
      (w.phase = .starting →
        ∀ source, x.sourcePosition = some source → source ≤ w.partition.log.lastPosition) →
      Step w { w with partition := w.partition.append x, appending := w.appending + 1 }
  /-- An appender notifies the worker of the record that it has appended. -/
  | announce {w : Worker} {others : Nat} : w.appending = others + 1 →
      Step w { w with toActivity := { w.toActivity.notify with appending := others } }
  /-- The worker is told to stop, or not to. -/
  | signal {w : Worker} (raised : Bool) :
      Step w { w with toActivity := w.toActivity.signal raised }
  /-- Nothing can be said about stopping any more. -/
  | drop {w : Worker} : Step w { w with stop := { w.stop with dropped := true } }

/-- What a worker comes to by itself. -/
abbrev Works : Worker → Worker → Prop := Relation.ReflTransGen (Acts e)

variable {e : Engine} {w w' : Worker} {p q : Partition}

/-- A worker that has stopped does nothing any more. -/
theorem not_acts_of_stopped (h : w.phase = .stopped) : ¬ Acts e w w' := by
  intro hact
  cases hact <;> simp_all [WorkerPhase.isListening]

/-! ## A worker that is left alone -/

/-- Everyone else may stand still. -/
theorem run_of_works (h : Works e w w') : Relation.ReflTransGen (Step e) w w' :=
  Relation.ReflTransGen.mono (fun _ _ hact => Step.act hact) w w' h

/-- The emitted records are appended in order, and then the state is taken
    over. All that remains of the notifications is at most a permit. -/
theorem works_write {s : PartitionState} {rest : List PendingRecord}
    (h : w.phase = .writing s rest) :
    ∃ permit, Works e w { w with
      partition :=
        ⟨w.partition.log.appendAll rest, ⟨s, w.partition.processor.lastProcessed + 1⟩⟩
      permit
      phase := .reading } := by
  induction rest generalizing w with
  | nil => exact ⟨w.permit, .single (.moveOn h)⟩
  | cons x rest ih =>
    have hwrite :
        Acts e w { w with partition := w.partition.append x, phase := .notifying s rest } :=
      .write h
    have hnotify := Acts.notify (e := e)
      (w := { w with partition := w.partition.append x, phase := .notifying s rest }) rfl
    obtain ⟨permit, hrest⟩ := ih (w := { w with
      partition := w.partition.append x, permit := true, phase := .writing s rest }) rfl
    exact ⟨permit, .head hwrite (.head hnotify hrest)⟩

/-- A worker takes the same step that the processor takes. -/
theorem works_next (h : w.phase = .reading) {o : Handling × Partition}
    (ho : e.processNext w.partition = some o) :
    ∃ permit, Works e w { w with partition := o.2, permit, phase := .reading } := by
  obtain ⟨r, hr, rfl⟩ := Engine.processNext_eq_some_iff.mp ho
  obtain ⟨permit, hwrite⟩ := works_write (e := e) (w := { w with
    phase := .writing (e.handle w.partition.processor.state r).2.1
      (e.handle w.partition.processor.state r).2.2 }) rfl
  exact ⟨permit, .head (.read h hr) hwrite⟩

theorem works_drain {count : Nat} (hdrains : e.Drains p count q) (h : w.phase = .reading)
    (hp : w.partition = p) :
    ∃ permit, Works e w { w with partition := q, permit, phase := .reading } := by
  induction hdrains generalizing w with
  | @done p hnone =>
    refine ⟨w.permit, ?_⟩
    subst hp
    rw [← h]
  | @next p q o count hnext _ ih =>
    subst hp
    obtain ⟨permit, hfirst⟩ := works_next h hnext
    obtain ⟨permit', hrest⟩ := ih (w := { w with partition := o.2, permit, phase := .reading })
      rfl rfl
    exact ⟨permit', hfirst.trans hrest⟩

theorem read?_of_processNext_none (h : e.processNext p = none) :
    p.log.read? (p.processor.lastProcessed + 1) = none := by
  cases hread : p.log.read? (p.processor.lastProcessed + 1) with
  | none => rfl
  | some r =>
    rw [Engine.processNext_of_read? hread] at h
    cases h

/-- With nothing to read and nothing said, a worker parks. If it had a permit,
    it looks once more. -/
theorem works_park (h : w.phase = .reading) (hnone : e.processNext w.partition = none)
    (hstop : w.stop = {}) : Works e w { w with permit := false, phase := .parked } := by
  have hread := read?_of_processNext_none hnone
  have hraised : w.stop.raised = false := by rw [hstop]
  have hchanged : w.stop.changed = false := by rw [hstop]
  have hdropped : w.stop.dropped = false := by rw [hstop]
  -- Without a permit the way is straight.
  have hstraight : ∀ w' : Worker, w'.phase = .reading → w'.partition = w.partition →
      w'.stop = w.stop → w'.permit = false → Works e w' { w' with phase := .parked } := by
    intro w' hphase hpartition hstop' hpermit
    have hnothing : Acts e w' { w' with phase := .checking } :=
      .readNothing hphase (by rw [hpartition, hread])
    have hstay : Acts e { w' with phase := .checking } { w' with phase := .waiting } :=
      .stay rfl (by rw [← hraised, ← hstop'])
    have hpark : Acts e { w' with phase := .waiting } { w' with phase := .parked } :=
      .park rfl hpermit (by rw [← hchanged, ← hstop']) (by rw [← hdropped, ← hstop'])
    exact .head hnothing (.head hstay (.single hpark))
  cases hpermit : w.permit with
  | false =>
    have hpark := hstraight w h rfl rfl hpermit
    rw [← hpermit]
    exact hpark
  | true =>
    have hnothing : Acts e w { w with phase := .checking } := .readNothing h hread
    have hstay : Acts e { w with phase := .checking } { w with phase := .waiting } :=
      .stay rfl hraised
    have htake : Acts e { w with phase := .waiting }
        { w with permit := false, phase := .reading } := .takePermit rfl hpermit
    have hpark := hstraight { w with permit := false, phase := .reading } rfl rfl rfl rfl
    exact .head hnothing (.head hstay (.head htake hpark))

/-- **A worker that is left alone drains its log, and parks.** -/
theorem works_drain_park {count : Nat} (h : w.phase = .reading)
    (hdrains : e.Drains w.partition count q) (hstop : w.stop = {}) :
    Works e w { w with partition := q, permit := false, phase := .parked } := by
  obtain ⟨permit, hdrain⟩ := works_drain hdrains h rfl
  have hpark := works_park (e := e) (w := { w with partition := q, permit, phase := .reading })
    rfl hdrains.processNext_eq_none hstop
  exact hdrain.trans hpark

/-! ## A worker comes to rest -/

/-- A worker that reads nothing stops, or comes to wait. -/
theorem works_waiting (h : w.phase = .reading) (hnone : e.processNext w.partition = none) :
    (∃ w', Works e w w' ∧ w'.phase.isIdle = true) ∨
      Works e w { w with phase := .waiting } := by
  have hnothing : Acts e w { w with phase := .checking } :=
    .readNothing h (read?_of_processNext_none hnone)
  cases hraised : w.stop.raised with
  | true => exact .inl ⟨_, .head hnothing (.single (.obey rfl hraised)), rfl⟩
  | false => exact .inr (.head hnothing (.single (.stay rfl hraised)))

/-- A permit makes a worker look again, and so does a change of the stop signal.
    Each of them does so once. -/
theorem works_idle_of_waiting (h : w.phase = .waiting) (hnone : e.processNext w.partition = none) :
    ∃ w', Works e w w' ∧ w'.phase.isIdle = true := by
  generalize hlooks : w.permit.toNat + w.stop.changed.toNat = looks
  induction looks generalizing w with
  | zero =>
    have hpermit : w.permit = false := Bool.toNat_eq_zero.mp (by omega)
    have hchanged : w.stop.changed = false := Bool.toNat_eq_zero.mp (by omega)
    have hlistening : w.phase.isListening = true := by rw [h]; rfl
    cases hdropped : w.stop.dropped with
    | false => exact ⟨_, .single (.park h hpermit hchanged hdropped), rfl⟩
    | true => exact ⟨_, .single (.giveUp hlistening hchanged hdropped), rfl⟩
  | succ looks ih =>
    -- Back at the read, there is less to look for.
    have hagain : ∀ w₁ : Worker, Acts e w w₁ → w₁.phase = .reading →
        w₁.partition = w.partition → w₁.permit.toNat + w₁.stop.changed.toNat = looks →
        ∃ w', Works e w w' ∧ w'.phase.isIdle = true := by
      intro w₁ hact hreading hpartition hless
      have hnone₁ : e.processNext w₁.partition = none := by rw [hpartition, hnone]
      rcases works_waiting hreading hnone₁ with ⟨w', hrest, hidle⟩ | hwaiting
      · exact ⟨w', .head hact hrest, hidle⟩
      · obtain ⟨w', hrest, hidle⟩ :=
          ih (w := { w₁ with phase := .waiting }) rfl hnone₁ hless
        exact ⟨w', .head hact (hwaiting.trans hrest), hidle⟩
    cases hpermit : w.permit with
    | true =>
      have hless : false.toNat + w.stop.changed.toNat = looks := by
        rw [hpermit, Bool.toNat_true] at hlooks
        rw [Bool.toNat_false]
        omega
      exact hagain _ (.takePermit h hpermit) rfl rfl hless
    | false =>
      have hchanged : w.stop.changed = true := by
        rw [hpermit, Bool.toNat_false] at hlooks
        exact Bool.toNat_eq_one.mp (by have := w.stop.changed.toNat_le; omega)
      have hnotice := Acts.notice (e := e) (by rw [h]; rfl) hchanged
      cases hraised : w.stop.raised with
      | true => exact ⟨_, .single hnotice, by simp [hraised, WorkerPhase.isIdle]⟩
      | false =>
        refine hagain _ hnotice (by simp [hraised]) rfl ?_
        rw [hpermit, hchanged, Bool.toNat_false, Bool.toNat_true] at hlooks
        simp only [h, hpermit, reduceCtorEq, decide_false, Bool.or_false, Bool.toNat_false]
        omega

theorem works_idle_of_reading (hstd : e.registry = .standard) (h : w.phase = .reading) :
    ∃ w', Works e w w' ∧ w'.phase.isIdle = true := by
  obtain ⟨count, q, hdrains⟩ := Engine.exists_drains hstd w.partition
  have hnone := hdrains.processNext_eq_none
  obtain ⟨permit, hdrain⟩ := works_drain hdrains h rfl
  rcases works_waiting (w := { w with partition := q, permit, phase := .reading }) rfl hnone with
    ⟨w', hrest, hidle⟩ | hwaiting
  · exact ⟨w', hdrain.trans hrest, hidle⟩
  · obtain ⟨w', hrest, hidle⟩ := works_idle_of_waiting (e := e)
      (w := { w with partition := q, permit, phase := .waiting }) rfl hnone
    exact ⟨w', hdrain.trans (hwaiting.trans hrest), hidle⟩

theorem works_idle_of_writing (hstd : e.registry = .standard) {s : PartitionState}
    {rest : List PendingRecord} (h : w.phase = .writing s rest) :
    ∃ w', Works e w w' ∧ w'.phase.isIdle = true := by
  obtain ⟨permit, hwrite⟩ := works_write (e := e) h
  obtain ⟨w', hrest, hidle⟩ := works_idle_of_reading (w := { w with
    partition :=
      ⟨w.partition.log.appendAll rest, ⟨s, w.partition.processor.lastProcessed + 1⟩⟩
    permit
    phase := .reading }) hstd rfl
  exact ⟨w', hwrite.trans hrest, hidle⟩

/-- **A worker that is left alone comes to rest**, wherever it is. -/
theorem works_idle (hstd : e.registry = .standard)
    (hdrained : w.phase.isDrained = true → e.processNext w.partition = none) :
    ∃ w', Works e w w' ∧ w'.phase.isIdle = true := by
  -- One step leads to a worker that is known to come to rest.
  have hfirst : ∀ {w₁ : Worker}, Acts e w w₁ →
      (∃ w', Works e w₁ w' ∧ w'.phase.isIdle = true) →
      ∃ w', Works e w w' ∧ w'.phase.isIdle = true :=
    fun hact ⟨w', hrest, hidle⟩ => ⟨w', .head hact hrest, hidle⟩
  cases hphase : w.phase with
  | starting => exact hfirst (.recover hphase) (works_idle_of_reading hstd rfl)
  | reading => exact works_idle_of_reading hstd hphase
  | writing s rest => exact works_idle_of_writing hstd hphase
  | notifying s rest => exact hfirst (.notify hphase) (works_idle_of_writing hstd rfl)
  | checking =>
    have hnone := hdrained (by rw [hphase]; rfl)
    cases hraised : w.stop.raised with
    | true => exact ⟨_, .single (.obey hphase hraised), rfl⟩
    | false => exact hfirst (.stay hphase hraised) (works_idle_of_waiting rfl hnone)
  | waiting => exact works_idle_of_waiting hphase (hdrained (by rw [hphase]; rfl))
  | parked => exact ⟨w, .refl, by rw [hphase]; rfl⟩
  | woken => exact hfirst (.wake hphase) (works_idle_of_reading hstd rfl)
  | stopped => exact ⟨w, .refl, by rw [hphase]; rfl⟩

/-! ## A worker follows one processor

    While nobody else appends to its log, a worker gets nowhere but where a new
    processor gets that has the log for itself. -/

section Following

variable {phase : WorkerPhase}

/-- Some of what the next record of `q` emits has been appended, and the rest is
    still to be. -/
structure Emitting (e : Engine) (q : Partition) (r : Record) (done : List PendingRecord)
    (s : PartitionState) (rest : List PendingRecord) (now : Partition) : Prop where
  read : q.log.read? (q.processor.lastProcessed + 1) = some r
  handled : (e.handle q.processor.state r).2 = (s, done ++ rest)
  appended : now = ⟨q.log.appendAll done, q.processor⟩

/-- Where a worker is in its loop, and its partition, if it has started with the
    partition `p` and nobody else has appended to the log. -/
def Follows (e : Engine) (p : Partition) : WorkerPhase → Partition → Prop
  | .starting, now => now = p
  | .reading, now => e.Passes (e.recover p).2 now
  | .writing s rest, now | .notifying s rest, now =>
    ∃ q r done, e.Passes (e.recover p).2 q ∧ Emitting e q r done s rest now
  | _, now => e.Passes (e.recover p).2 now ∧ e.processNext now = none

theorem Follows.drained (h : Follows e p phase q) (hphase : phase.isDrained = true) :
    e.Passes (e.recover p).2 q ∧ e.processNext q = none := by
  cases phase <;> first | exact h | cases hphase

theorem Follows.act (h : Follows e p w.phase w.partition) (hact : Acts e w w') :
    Follows e p w'.phase w'.partition := by
  cases hact with
  | recover hphase =>
    rw [hphase] at h
    obtain rfl : w.partition = p := h
    exact Relation.ReflTransGen.refl
  | read hphase hread =>
    rw [hphase] at h
    exact ⟨w.partition, _, [], h, hread, rfl, rfl⟩
  | @write s x rest hphase =>
    rw [hphase] at h
    obtain ⟨q, r, done, hpasses, hread, hhandled, hnow⟩ := h
    refine ⟨q, r, done ++ [x], hpasses, hread, ?_, ?_⟩
    · rw [hhandled, List.append_assoc, List.singleton_append]
    · show (⟨w.partition.log.append x, w.partition.processor⟩ : Partition) = _
      rw [hnow, Log.appendAll, Log.appendAll, List.foldl_append]
      rfl
  | notify hphase =>
    rw [hphase] at h
    exact h
  | moveOn hphase =>
    rw [hphase] at h
    obtain ⟨q, r, done, hpasses, hread, hhandled, hnow⟩ := h
    rw [List.append_nil] at hhandled
    refine hpasses.tail ⟨(e.handle q.processor.state r).1, ?_⟩
    rw [Engine.processNext_of_read? hread, Engine.after, hhandled, hnow]
  | readNothing hphase hread =>
    rw [hphase] at h
    refine ⟨h, ?_⟩
    unfold Engine.processNext
    rw [hread]
  | obey hphase =>
    rw [hphase] at h
    exact h
  | stay hphase =>
    rw [hphase] at h
    exact h
  | takePermit hphase =>
    rw [hphase] at h
    exact h.1
  | park hphase =>
    rw [hphase] at h
    exact h
  | wake hphase =>
    rw [hphase] at h
    exact h.1
  | notice hlistening =>
    obtain ⟨hpasses, hnone⟩ := h.drained (WorkerPhase.isDrained_of_isListening hlistening)
    cases hraised : w.stop.raised with
    | true => exact ⟨hpasses, hnone⟩
    | false => exact hpasses
  | giveUp hlistening =>
    exact h.drained (WorkerPhase.isDrained_of_isListening hlistening)

/-- A worker at rest has come to the end of its log, where the processor comes to. -/
theorem Follows.drains (h : Follows e p phase q) (hphase : phase.isIdle = true) :
    ∃ count, e.Drains (e.recover p).2 count q := by
  obtain ⟨hpasses, hnone⟩ := h.drained (WorkerPhase.isDrained_of_isIdle hphase)
  exact hpasses.drains hnone

end Following

end Worker

end WorkflowEngine
