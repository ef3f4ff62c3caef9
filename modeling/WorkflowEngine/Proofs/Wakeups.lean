import WorkflowEngine.Proofs.Worker

/-! # No Record Is Left Behind

    A record may be appended at any moment, also between the last read that
    found nothing and the moment at which the worker parks. Then nobody wakes
    the worker for it later: the notification was there before the wait. That
    no record is left behind rests on one invariant: while a worker is on its
    way from a read that found nothing to the next notification, a record that
    it has not seen is on its way to be announced, or there is a permit that
    keeps the worker from parking.
-/

namespace WorkflowEngine

/-- Whether a worker has found nothing to read, and has not been notified since. -/
def WorkerPhase.isResting : WorkerPhase → Bool
  | .checking | .waiting | .parked => true
  | _ => false

/-- Whether a worker has read a record that it has not finished. -/
def WorkerPhase.hasRecord : WorkerPhase → Bool
  | .writing .. | .notifying .. => true
  | _ => false

namespace Worker

variable {e : Engine} {w w' w₀ : Worker}

/-! ## What has not been seen is announced -/

/-- What a resting worker has not seen is going to be announced to it. -/
structure Alert (w : Worker) : Prop where
  /-- There is nothing to see, or there is a notification to come or a stored one. -/
  announced : w.phase.isResting = true →
    w.partition.log.lastPosition ≤ w.partition.processor.lastProcessed ∨ w.permit = true ∨
      0 < w.appending
  /-- A worker that parks has taken its permit, and is woken by the next notification. -/
  unstored : w.phase = .parked → w.permit = false

namespace Alert

/-- Nothing is claimed of a worker that is busy. -/
theorem of_busy (h : w.phase.isResting = false) : Alert w where
  announced hresting := by
    rw [h] at hresting
    cases hresting
  unstored hparked := by
    rw [hparked] at h
    cases h

theorem lastPosition_le_of_read?
    (h : w.partition.log.read? (w.partition.processor.lastProcessed + 1) = none) :
    w.partition.log.lastPosition ≤ w.partition.processor.lastProcessed := by
  rw [Log.read?_succ] at h
  exact List.getElem?_eq_none_iff.mp h

theorem act (h : Alert w) (hact : Acts e w w') : Alert w' := by
  cases hact with
  | recover => exact of_busy rfl
  | read => exact of_busy rfl
  | write => exact of_busy rfl
  | notify => exact of_busy rfl
  | moveOn => exact of_busy rfl
  | readNothing _ hread =>
    -- The read itself tells that there is nothing to see.
    exact ⟨fun _ => .inl (lastPosition_le_of_read? hread), fun hparked => nomatch hparked⟩
  | obey => exact of_busy rfl
  | stay hphase =>
    have hresting : w.phase.isResting = true := by rw [hphase]; rfl
    exact ⟨fun _ => h.announced hresting, fun hparked => nomatch hparked⟩
  | takePermit => exact of_busy rfl
  | park hphase hpermit =>
    have hresting : w.phase.isResting = true := by rw [hphase]; rfl
    exact ⟨fun _ => h.announced hresting, fun _ => hpermit⟩
  | wake => exact of_busy rfl
  | notice =>
    apply of_busy
    show (if w.stop.raised = true then WorkerPhase.stopped else .reading).isResting = false
    split
    · rfl
    · rfl
  | giveUp => exact of_busy rfl

/-- A notification reaches the worker, or is stored for it. -/
theorem announce (w : Worker) {others : Nat} :
    Alert { w with toActivity := { w.toActivity.notify with appending := others } } := by
  by_cases hparked : w.phase = .parked
  · rw [Activity.notify_of_parked hparked]
    exact of_busy rfl
  · rw [Activity.notify_of_not_parked hparked]
    exact ⟨fun _ => .inr (.inl rfl), fun hparked' => absurd hparked' hparked⟩

theorem step (h : Alert w) (hstep : Step e w w') : Alert w' := by
  cases hstep with
  | act hact => exact h.act hact
  | append x _ => exact ⟨fun _ => .inr (.inr (Nat.succ_pos _)), h.unstored⟩
  | announce => exact announce w
  | signal raised => exact ⟨h.announced, h.unstored⟩
  | drop => exact ⟨h.announced, h.unstored⟩

end Alert

/-! ## The processor stays within its log -/

/-- The processor stands within its log, and before its end while it has a
    record in hand. -/
structure Within (w : Worker) : Prop where
  /-- What the state will be rebuilt from are records of the log. -/
  sourced :
    w.phase = .starting → w.partition.log.lastSourcePosition ≤ w.partition.log.lastPosition
  /-- So are all processed records. -/
  reached : w.partition.processor.lastProcessed ≤ w.partition.log.lastPosition
  /-- And so is the record in hand. -/
  inHand : w.phase.hasRecord = true →
    w.partition.processor.lastProcessed < w.partition.log.lastPosition

namespace Within

/-- Once the state is rebuilt and no record is in hand, only the position matters. -/
theorem of_free (hphase : w.phase ≠ .starting) (hfree : w.phase.hasRecord = false)
    (h : w.partition.processor.lastProcessed ≤ w.partition.log.lastPosition) : Within w where
  sourced hstarting := absurd hstarting hphase
  reached := h
  inHand hrecord := by
    rw [hfree] at hrecord
    cases hrecord

theorem act (h : Within w) (hact : Acts e w w') : Within w' := by
  have hreached := h.reached
  cases hact with
  | recover hphase => exact of_free nofun rfl (Nat.max_le.mpr ⟨hreached, h.sourced hphase⟩)
  | read _ hread =>
    have hlt := Partition.lt_lastPosition_of_read? hread
    exact ⟨nofun, hreached, fun _ => hlt⟩
  | write hphase =>
    have hlt := h.inHand (by rw [hphase]; rfl)
    rename_i s x rest
    have hgrown : (w.partition.append x).log.lastPosition = w.partition.log.lastPosition + 1 :=
      Log.lastPosition_append w.partition.log x
    have hlt' : w.partition.processor.lastProcessed < (w.partition.append x).log.lastPosition := by
      omega
    exact ⟨nofun, Nat.le_of_lt hlt', fun _ => hlt'⟩
  | notify hphase =>
    have hlt := h.inHand (by rw [hphase]; rfl)
    exact ⟨nofun, hreached, fun _ => hlt⟩
  | moveOn hphase =>
    have hlt := h.inHand (by rw [hphase]; rfl)
    exact of_free nofun rfl hlt
  | readNothing => exact of_free nofun rfl hreached
  | obey => exact of_free nofun rfl hreached
  | stay => exact of_free nofun rfl hreached
  | takePermit => exact of_free nofun rfl hreached
  | park => exact of_free nofun rfl hreached
  | wake => exact of_free nofun rfl hreached
  | notice =>
    cases hraised : w.stop.raised with
    | true => exact of_free (by simp) (by simp [WorkerPhase.hasRecord]) hreached
    | false => exact of_free (by simp) (by simp [WorkerPhase.hasRecord]) hreached
  | giveUp => exact of_free nofun rfl hreached

/-- A record from outside makes the log longer. -/
theorem append (h : Within w) {x : PendingRecord}
    (hx : w.phase = .starting →
      ∀ source, x.sourcePosition = some source → source ≤ w.partition.log.lastPosition) :
    Within { w with partition := w.partition.append x, appending := w.appending + 1 } := by
  have hgrown : (w.partition.append x).log.lastPosition = w.partition.log.lastPosition + 1 :=
    Log.lastPosition_append w.partition.log x
  refine ⟨fun hstarting => ?_, ?_, fun hrecord => ?_⟩
  · show (w.partition.append x).log.lastSourcePosition ≤ (w.partition.append x).log.lastPosition
    have hsourced := h.sourced hstarting
    rw [Log.lastSourcePosition_le_iff] at hsourced ⊢
    intro r hr source hsource
    rcases List.mem_append.mp hr with hold | hnew
    · have hle := hsourced r hold source hsource
      omega
    · obtain rfl := List.mem_singleton.mp hnew
      have hle := hx hstarting source hsource
      omega
  · have hreached := h.reached
    show w.partition.processor.lastProcessed ≤ (w.partition.append x).log.lastPosition
    omega
  · have hlt := h.inHand hrecord
    show w.partition.processor.lastProcessed < (w.partition.append x).log.lastPosition
    omega

/-- A notification changes nothing of the partition. -/
theorem announce (h : Within w) {others : Nat} :
    Within { w with toActivity := { w.toActivity.notify with appending := others } } := by
  by_cases hparked : w.phase = .parked
  · rw [Activity.notify_of_parked hparked]
    exact of_free nofun rfl h.reached
  · rw [Activity.notify_of_not_parked hparked]
    exact ⟨h.sourced, h.reached, h.inHand⟩

theorem step (h : Within w) (hstep : Step e w w') : Within w' := by
  cases hstep with
  | act hact => exact h.act hact
  | append x hx => exact h.append hx
  | announce => exact h.announce
  | signal raised => exact ⟨h.sourced, h.reached, h.inHand⟩
  | drop => exact ⟨h.sourced, h.reached, h.inHand⟩

end Within

/-! ## Runs -/

/-- Both invariants hold from where a worker starts, whatever the order of all
    steps is. -/
theorem alert_within (hbegin : w₀.phase = .starting)
    (hsources : w₀.partition.log.lastSourcePosition ≤ w₀.partition.log.lastPosition)
    (hwithin : w₀.partition.processor.lastProcessed ≤ w₀.partition.log.lastPosition)
    (hrun : Relation.ReflTransGen (Step e) w₀ w) : Alert w ∧ Within w := by
  induction hrun with
  | refl =>
    constructor
    · exact .of_busy (by rw [hbegin]; rfl)
    · exact ⟨fun _ => hsources, hwithin,
        fun hrecord => by rw [hbegin] at hrecord; cases hrecord⟩
  | tail _ hstep ih => exact ⟨ih.1.step hstep, ih.2.step hstep⟩

/-- **No record is left behind.** A worker starts on a log whose source
    positions are positions of the log, with or without a permit and with any
    number of appenders at work. Whatever the order of all steps is from then on:
    when the worker is parked and nobody is about to notify it, every record has
    been processed. -/
theorem parked_caught_up (hbegin : w₀.phase = .starting)
    (hsources : w₀.partition.log.lastSourcePosition ≤ w₀.partition.log.lastPosition)
    (hwithin : w₀.partition.processor.lastProcessed ≤ w₀.partition.log.lastPosition)
    (hrun : Relation.ReflTransGen (Step e) w₀ w) (hparked : w.phase = .parked)
    (hannounced : w.appending = 0) :
    w.permit = false ∧ w.partition.processor.lastProcessed = w.partition.log.lastPosition := by
  obtain ⟨halert, hlog⟩ := alert_within hbegin hsources hwithin hrun
  have hpermit := halert.unstored hparked
  refine ⟨hpermit, ?_⟩
  rcases halert.announced (by rw [hparked]; rfl) with hseen | hstored | hcoming
  · exact Nat.le_antisymm hlog.reached hseen
  · rw [hpermit] at hstored
    cases hstored
  · omega

/-- A worker parks on an empty log. An order is appended, the worker is woken,
    and when it parks again it has processed the order and what it led to. -/
theorem parked_caught_up_order :
    ∃ w₀ w : Worker, Relation.ReflTransGen (Step OrderProcess.engine) w₀ w ∧
      w₀.partition = .fresh 1 ∧ w.phase = .parked ∧ w.appending = 0 ∧ w.permit = false ∧
      w.partition.processor.lastProcessed = w.partition.log.lastPosition ∧
      w.partition.log.lastPosition = 5 := by
  let w₀ : Worker := { partition := .fresh 1 }
  let empty : Worker := { w₀ with phase := .parked }
  let woken : Worker := { w₀ with partition := OrderProcess.ordered 3, phase := .reading }
  let q := (OrderProcess.engine.drain 9 (OrderProcess.ordered 3)).2
  let w : Worker := { woken with partition := q, permit := false, phase := .parked }
  have hempty : Relation.ReflTransGen (Step OrderProcess.engine) w₀ empty := by
    have hrecover : Acts OrderProcess.engine w₀ { w₀ with phase := .reading } := .recover rfl
    have hpark : Works OrderProcess.engine { w₀ with phase := .reading } empty :=
      works_park rfl rfl rfl
    exact .head (.act hrecover) (run_of_works hpark)
  have hwoken : Relation.ReflTransGen (Step OrderProcess.engine) empty woken := by
    let appended : Worker := { empty with partition := OrderProcess.ordered 3, appending := 1 }
    have happend : Step OrderProcess.engine empty appended := .append (OrderProcess.order 3) nofun
    have hannounce : Step OrderProcess.engine appended { woken with phase := .woken } :=
      .announce rfl
    have hwake : Acts OrderProcess.engine { woken with phase := .woken } woken := .wake rfl
    exact .head happend (.head hannounce (.single (.act hwake)))
  have hw : Relation.ReflTransGen (Step OrderProcess.engine) woken w := by
    have hdrains : Engine.Drains OrderProcess.engine (OrderProcess.ordered 3)
        (OrderProcess.engine.drain 9 (OrderProcess.ordered 3)).1 q := .of_drain (by decide +kernel)
    have hworks : Works OrderProcess.engine woken w := works_drain_park rfl hdrains rfl
    exact run_of_works hworks
  have hrun := hempty.trans (hwoken.trans hw)
  have hbegin : w₀.phase = .starting := rfl
  obtain ⟨hpermit, hseen⟩ := parked_caught_up hbegin (by decide) (by decide) hrun rfl rfl
  exact ⟨w₀, w, hrun, rfl, rfl, rfl, hpermit, hseen, by decide +kernel⟩

end Worker

end WorkflowEngine
