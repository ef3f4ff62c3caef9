import WorkflowEngine.Proofs.Sharing

/-! # Starts in Shared Workflow Instances

    The tokens of a workflow instance wait in one queue, for all of its
    containers. A container may therefore start with the start event of another
    one, or find no token at all, but only where tokens and containers are out of
    step.

    ### Main statements

    * `starts_with_declared_event`: a container starts with one of its own start
      events, unless its workflow instance is out of step.
    * `fails_only_if_parted`: if events alone start containers, nothing fails
      unless a termination has taken tokens and containers apart.

    Both have examples in which the workflow instance was upset.
-/

namespace WorkflowEngine

/-! ## A process with payments -/

namespace PaymentProcess

/-- The event that starts the process at once. -/
def opened : CatchEvent := ⟨"opened", .none, .startEvent⟩

/-- The event that a payment is due. -/
def due : CatchEvent := ⟨"due", .timer (60 * Duration.second), .startEvent⟩

/-- The event that a payment is returned. -/
def returned : CatchEvent := ⟨"returned", .message "payment-returned" none, .startEvent⟩

/-- The process, which also starts when an order is placed. -/
def order : Container :=
  { OrderProcess.scope with startEvents := [opened, OrderProcess.placed], nonempty := by decide }

/-- The payment within the process. -/
def payment : Container := ⟨"payment", .subProcess, [due], rfl, by decide⟩

/-- The refund of a payment. -/
def refund : Container := ⟨"refund", .subProcess, [returned], rfl, by decide⟩

/-- The declarations. -/
def builder : Workflow.Builder :=
  ((Workflow.Builder.process ⟨7, "order", 1, [], []⟩ [opened, OrderProcess.placed]).subProcess
    "payment" [due]).subProcess "refund" [returned]

/-- The workflow of the process. -/
def workflow : Workflow :=
  ⟨7, "order", 1, .ofList [("order", .container order), ("opened", .catchEvent opened),
    ("placed", .catchEvent OrderProcess.placed), ("payment", .container payment),
    ("due", .catchEvent due), ("refund", .container refund), ("returned", .catchEvent returned)]⟩

/-- The repository with this workflow alone. -/
def repository : Repository := ⟨.ofList [(7, workflow)]⟩

/-- The engine of the process with the standard handlers. -/
def engine : Engine := ⟨repository, .standard⟩

theorem deployed : repository.Deployed := .deploy (b := builder) .empty rfl rfl

/-- The value that names an element in the given workflow instance. -/
def value (elementId : String) (instanceKey : Key) : RecordValue :=
  { workflowKey := 7, instanceKey, elementId }

section Names

variable {v : RecordValue} {scope : Container} {start : CatchEvent} (hw : v.workflowKey = 7)

include hw

theorem declares (hscope : scope ∈ workflow.containers) (hstart : start ∈ scope.startEvents)
    (hid : v.elementId = start.id) : repository.Declares v scope start where
  deployed := ⟨workflow, by rw [hw]; rfl, hscope⟩
  declared := hstart
  named := hid

theorem declares_placed (hid : v.elementId = "placed") :
    repository.Declares v order OrderProcess.placed := declares hw (by decide) (by decide) hid

theorem declares_due (hid : v.elementId = "due") : repository.Declares v payment due :=
  declares hw (by decide) (by decide) hid

theorem declares_returned (hid : v.elementId = "returned") :
    repository.Declares v refund returned := declares hw (by decide) (by decide) hid

theorem targets (hscope : scope ∈ workflow.containers) (hid : v.elementId = scope.id) :
    repository.Targets v scope where
  deployed := ⟨workflow, by rw [hw]; rfl, hscope⟩
  named := hid

theorem targets_order (hid : v.elementId = "order") : repository.Targets v order :=
  targets hw (by decide) hid

theorem targets_payment (hid : v.elementId = "payment") : repository.Targets v payment :=
  targets hw (by decide) hid

theorem targets_refund (hid : v.elementId = "refund") : repository.Targets v refund :=
  targets hw (by decide) hid

end Names

end PaymentProcess

namespace Engine

variable {e : Engine} {id : PartitionId} {p : Partition}

/-! ## The start events of containers -/

/-- Every container starts with a start event that it declares. -/
def StartsDeclared (e : Engine) (l : Log) : Prop :=
  ∀ d ∈ l.records, d.intent = .eventTriggering → e.StartsOwn l d

/-- Where tokens and claims are in balance, no start event is another one's. -/
theorem Started.own_of_balanced {l : Log} {d : Record} (h : e.Started l d)
    (hbalanced : ∀ r ∈ l.records, ∀ b ∈ l.records,
      e.Balanced l r.position b.value.instanceKey) :
    e.StartsOwn l d := by
  cases h with
  | own hown => exact hown
  | @foreign b _ _ hb _ _ _ _ _ hout =>
    obtain ⟨r, hr, -, -, hunbalanced, -⟩ := hout
    exact absurd (hbalanced r hr b hb) hunbalanced

/-- **A container starts with a start event that it declares.** The only
    exception are containers that need a token, in a workflow instance that is out
    of step: they may start with the start event of an earlier event of the same
    workflow instance. -/
theorem starts_with_declared_event (hdep : e.repository.Deployed) (hstd : e.registry = .standard)
    (h : Reaches e (Addressed e.repository) id p) :
    ∀ d ∈ p.log.records, d.intent = .eventTriggering → e.Started p.log d :=
  (h.settled hdep hstd).started

/-- A payment is due in the workflow instance of a process that is activated from
    outside and starts at once, and two payments are due in another one. -/
def payments : Partition :=
  (PaymentProcess.engine.drain 20
    (((((Partition.fresh 1).append
      (.external .elementActivating (PaymentProcess.value "order" Key.unset))).append
      (.external .eventOccurred (PaymentProcess.value "due" (Key.encode 1 1)))).append
      (.external .eventOccurred (PaymentProcess.value "due" 100))).append
      (.external .eventOccurred (PaymentProcess.value "due" 100)))).2

/-- The process and all payments start with start events of their own. -/
theorem starts_with_declared_event_payments :
    Reaches PaymentProcess.engine (Addressed PaymentProcess.repository) 1 payments ∧
      payments.log.records.filterMap (fun d =>
        if d.intent = .eventTriggering then some (d.value.instanceKey, d.value.elementId)
        else none) =
          [(Key.encode 1 1, "opened"), (Key.encode 1 1, "due"), (100, "due"), (100, "due")] ∧
      PaymentProcess.engine.StartsDeclared payments.log := by
  have hdue : ∀ l instanceKey, Addressed PaymentProcess.repository l
      (.external .eventOccurred (PaymentProcess.value "due" instanceKey)) :=
    fun _ _ => .event (PaymentProcess.declares_due rfl rfl)
  have hrun : Reaches PaymentProcess.engine (Addressed PaymentProcess.repository) 1 payments :=
    ((((Reaches.start.append (.activation (PaymentProcess.targets_order rfl rfl) rfl)).append
      (hdue _ _)).append (hdue _ _)).append (hdue _ _)).drain 20
  refine ⟨hrun, by decide +kernel, fun d hd hintent => ?_⟩
  have hstarted := starts_with_declared_event PaymentProcess.deployed rfl hrun d hd hintent
  exact hstarted.own_of_balanced (by decide +kernel)

/-- An order is placed and a payment is due in one workflow instance. -/
def orderAndPayment : Partition :=
  (PaymentProcess.engine.drain 20
    (((Partition.fresh 1).append
      (.external .eventOccurred (PaymentProcess.value "placed" 100))).append
      (.external .eventOccurred (PaymentProcess.value "due" 100)))).2

/-- A payment is activated from outside, and one is returned in its workflow
    instance. -/
def outsidePayment : Partition :=
  (PaymentProcess.engine.drain 20
    (((Partition.fresh 1).append
      (.external .elementActivating (PaymentProcess.value "payment" Key.unset))).append
      (.external .eventOccurred (PaymentProcess.value "returned" (Key.encode 1 1))))).2

/-- A payment is due within a scope and one is returned, in one workflow instance. -/
def dueAndReturned : Partition :=
  (PaymentProcess.engine.drain 2
    (((Partition.fresh 1).append
      (.external .eventOccurred { PaymentProcess.value "due" 100 with scopeKey := 5 })).append
      (.external .eventOccurred (PaymentProcess.value "returned" 100)))).2

/-- The payment that is due is terminated before it starts. -/
def terminatedPayment : Partition :=
  (PaymentProcess.engine.drain 20 (dueAndReturned.append
    ((PendingRecord.external .elementTerminating (recordAt dueAndReturned 3).value).withKey
      (recordAt dueAndReturned 3).key))).2

/-- The source of a start event is one record alone, and this is about one container
    alone, which does not declare the start event. -/
theorem Traced.not_startsDeclared (ht : e.Traced p) (hdep : e.repository.Deployed) (b d : Record)
    {scope : Container} (htargets : e.repository.Targets b.value scope)
    (hd : d ∈ p.log.records) (hintent : d.intent = .eventTriggering)
    (hb : b ∈ p.log.records) (hsource : d.sourcePosition = some b.position)
    (hforeign : ∀ start ∈ scope.startEvents, d.value.elementId ≠ start.id) :
    ¬e.StartsDeclared p.log := by
  intro hdeclared
  obtain ⟨b', hb', hsource', -, scope', start, htargets', -, hstart, hnamed⟩ :=
    hdeclared d hd hintent
  obtain rfl : b' = b := ht.exact.numbered.eq_of_position hb' hb
    (Option.some.inj (hsource'.symm.trans hsource))
  obtain rfl := htargets'.unique hdep htargets
  exact hforeign start hstart hnamed

/-- A container may start with a start event that it does not declare. The process
    starts at once and leaves its token behind, and the payment takes it; a payment
    without a token takes the one of a refund; and a payment that is terminated
    leaves its token behind, and the refund takes it. -/
theorem payments_not_startsDeclared :
    PaymentProcess.repository.Deployed ∧
      (Reaches PaymentProcess.engine (Addressed PaymentProcess.repository) 1 orderAndPayment ∧
        ¬PaymentProcess.engine.StartsDeclared orderAndPayment.log) ∧
      (Reaches PaymentProcess.engine (Addressed PaymentProcess.repository) 1 outsidePayment ∧
        ¬PaymentProcess.engine.StartsDeclared outsidePayment.log) ∧
      (Reaches PaymentProcess.engine (Addressed PaymentProcess.repository) 1 terminatedPayment ∧
        ¬PaymentProcess.engine.StartsDeclared terminatedPayment.log) := by
  have hleft : Reaches PaymentProcess.engine (Addressed PaymentProcess.repository) 1
      orderAndPayment :=
    ((Reaches.start.append (.event (PaymentProcess.declares_placed rfl rfl))).append
      (.event (PaymentProcess.declares_due rfl rfl))).drain 20
  have houtside : Reaches PaymentProcess.engine (Addressed PaymentProcess.repository) 1
      outsidePayment :=
    ((Reaches.start.append (.activation (PaymentProcess.targets_payment rfl rfl) rfl)).append
      (.event (PaymentProcess.declares_returned rfl rfl))).drain 20
  have hbefore : Reaches PaymentProcess.engine (Addressed PaymentProcess.repository) 1
      dueAndReturned :=
    ((Reaches.start.append (.event (PaymentProcess.declares_due rfl rfl))).append
      (.event (PaymentProcess.declares_returned rfl rfl))).drain 2
  have hterminated : Reaches PaymentProcess.engine (Addressed PaymentProcess.repository) 1
      terminatedPayment :=
    (hbefore.append (.termination (by decide +kernel) (by decide +kernel))).drain 20
  refine ⟨PaymentProcess.deployed, ⟨hleft, ?_⟩, ⟨houtside, ?_⟩, ⟨hterminated, ?_⟩⟩
  · exact (hleft.traced rfl).not_startsDeclared PaymentProcess.deployed
      (recordAt orderAndPayment 6) (recordAt orderAndPayment 8)
      (PaymentProcess.targets_payment (by decide +kernel) (by decide +kernel))
      (by decide +kernel) (by decide +kernel) (by decide +kernel) (by decide +kernel)
      (by decide +kernel)
  · exact (houtside.traced rfl).not_startsDeclared PaymentProcess.deployed
      (recordAt outsidePayment 3) (recordAt outsidePayment 5)
      (PaymentProcess.targets_payment (by decide +kernel) (by decide +kernel))
      (by decide +kernel) (by decide +kernel) (by decide +kernel) (by decide +kernel)
      (by decide +kernel)
  · exact (hterminated.traced rfl).not_startsDeclared PaymentProcess.deployed
      (recordAt terminatedPayment 7) (recordAt terminatedPayment 9)
      (PaymentProcess.targets_refund (by decide +kernel) (by decide +kernel))
      (by decide +kernel) (by decide +kernel) (by decide +kernel) (by decide +kernel)
      (by decide +kernel)

end Engine

/-! ## Failures -/

/-- Events occur that deployed containers wait for, in any workflow instance, and
    containers that were activated before are terminated. -/
inductive EventDriven (repo : Repository) (l : Log) : PendingRecord → Prop where
  /-- An event occurs. -/
  | event {v : RecordValue} {scope : Container} {start : CatchEvent} :
      repo.Awaits v scope start → EventDriven repo l (.external .eventOccurred v)
  /-- A container is terminated. -/
  | termination {a : Record} : a ∈ l.records → a.intent = .elementActivating →
      EventDriven repo l ((PendingRecord.external .elementTerminating a.value).withKey a.key)

namespace EventDriven

variable {repo : Repository} {l : Log} {x : PendingRecord}

theorem addressed (h : EventDriven repo l x) : Addressed repo l x := by
  cases h with
  | event hawaits => exact .event hawaits.declares
  | termination ha hintent => exact .termination ha hintent

theorem append (h : EventDriven repo l x) (y : PendingRecord) :
    EventDriven repo (l.append y) x := by
  cases h with
  | event hawaits => exact .event hawaits
  | termination ha hintent => exact .termination (List.mem_append_left _ ha) hintent

end EventDriven

namespace Engine

variable {e : Engine} {id : PartitionId} {p : Partition}

/-- How tokens and containers of a workflow instance came apart while the first
    `n` records were handled. -/
inductive Parted (e : Engine) (l : Log) (n : Nat) (s : Key) : Prop where
  /-- A termination has left more or fewer tokens than containers that claim one. -/
  | terminated {t : Record} : t ∈ l.records → t.position ≤ n →
      t.intent = .elementTerminating → ¬e.Balanced l t.position s → Parted e l n s
  /-- The activation of a container has, because the key that was drawn for its
      event, and that names its workflow instance, is the one that stands for no
      key. -/
  | unnamed {ev a : Record} : ev ∈ l.records → ev.intent = .eventOccurred →
      ev.value.instanceKey = Key.unset → ev.key = Key.unset → a ∈ l.followUps ev.position →
      a.position ≤ n → ¬e.Balanced l a.position s → Parted e l n s

theorem Reaches.addressed (h : Reaches e (EventDriven e.repository) id p) :
    Reaches e (Addressed e.repository) id p := h.mono fun _ _ hx => hx.addressed

/-- The events that occur are those that containers wait for. -/
theorem awaits_of_occurred (h : Reaches e (EventDriven e.repository) id p)
    (hstd : e.registry = .standard) {ev : Record} (hev : ev ∈ p.log.records)
    (hintent : ev.intent = .eventOccurred) :
    ∃ scope start, e.repository.Awaits ev.value scope start := by
  have htraced := h.addressed.traced hstd
  cases hsource : ev.sourcePosition with
  | none =>
    obtain ⟨x, hx, hbecomes⟩ := (h.external fun _ _ y hx => hx.append y) ev hev hsource
    have hxintent := hbecomes.intent.symm.trans hintent
    cases hx with
    | @event v scope start hawaits =>
      refine ⟨scope, start, ?_⟩
      rw [hbecomes.value]
      exact hawaits
    | termination => cases hxintent
  | some q =>
    -- No event is emitted.
    obtain ⟨s, -, -, hemits⟩ := htraced.exact.emits hstd hev hsource
    exact absurd hintent hemits.not_occurred

section Events

variable (hdep : e.repository.Deployed) (hstd : e.registry = .standard)
  (h : Reaches e (EventDriven e.repository) id p)

include hdep hstd h

/-- Containers are activated by events alone, and only those that wait for them. -/
theorem event_of_activating {a : Record} (ha : a ∈ p.log.records)
    (hintent : a.intent = .elementActivating) :
    ∃ ev ∈ p.log.records, ∃ scope start, a ∈ p.log.followUps ev.position ∧
      ev.intent = .eventOccurred ∧ e.repository.Awaits ev.value scope start ∧
      a.value = ev.scopeValue scope.id := by
  have htraced := h.addressed.traced hstd
  cases hsource : a.sourcePosition with
  | none =>
    obtain ⟨x, hx, hbecomes⟩ := (h.external fun _ _ y hx => hx.append y) a ha hsource
    have hxintent := hbecomes.intent.symm.trans hintent
    cases hx with
    | event => cases hxintent
    | termination => cases hxintent
  | some q =>
    have hfollow : a ∈ p.log.followUps q := Log.mem_followUps.mpr ⟨ha, hsource⟩
    obtain ⟨ev, hev, rfl, hemits⟩ := htraced.exact.emits hstd ha hsource
    obtain ⟨w, scope, hw, hscope, hevintent, hvalue⟩ := hemits.of_activating hintent
    obtain ⟨scope', start, hawaits⟩ := awaits_of_occurred h hstd hev hevintent
    obtain ⟨w', hw', hscope', -⟩ := hawaits.lookup hdep
    obtain rfl := Option.some.inj (hw.symm.trans hw')
    obtain rfl := Option.some.inj (hscope.symm.trans hscope')
    exact ⟨ev, hev, scope, start, hfollow, hevintent, hawaits, hvalue⟩

/-- No container starts at once. -/
theorem first_of_activated {b : Record} (hb : b ∈ p.log.records)
    (hintent : b.intent = .elementActivated) {scope : Container}
    (htargets : e.repository.Targets b.value scope) : scope.firstStartEvent.isNone = false := by
  have htraced := h.addressed.traced hstd
  obtain ⟨a, ha, haintent, -, -, hvalue⟩ := htraced.of_activated hstd hb hintent
  obtain ⟨ev, -, scope', start, -, -, hawaits, havalue⟩ :=
    event_of_activating hdep hstd h ha haintent
  have htargets' : e.repository.Targets b.value scope' := by
    rw [hvalue, havalue]
    exact ⟨hawaits.deployed, rfl⟩
  rw [htargets.unique hdep htargets']
  exact hawaits.first

/-- What upsets a workflow instance takes its tokens and containers apart. -/
theorem parted_of_upset {s : Key} (hupset : e.Upset p.log p.processor.lastProcessed s) :
    e.Parted p.log p.processor.lastProcessed s := by
  obtain ⟨r, hr, hpos, hkind, hunbalanced⟩ := hupset
  cases hkind with
  | startsAtOnce hintent htargets hfirst _ =>
    rw [first_of_activated hdep hstd h hr hintent htargets] at hfirst
    cases hfirst
  | unplaced hintent hunset _ =>
    obtain ⟨ev, hev, scope, start, hfollow, hevintent, -, hvalue⟩ :=
      event_of_activating hdep hstd h hr hintent
    -- The container belongs to the workflow instance that the event names.
    have hinstance : ev.instanceKey = Key.unset := by
      rw [hvalue] at hunset
      exact hunset
    have hevunset : ev.value.instanceKey = Key.unset := by
      by_contra hset
      exact hset ((RecordValue.instanceOr_of_set hset ev.key).symm.trans hinstance)
    have hkey : ev.instanceKey = ev.key := if_pos hevunset
    exact .unnamed hev hevintent hevunset (hkey.symm.trans hinstance) hfollow hpos hunbalanced
  | terminates hintent => exact .terminated hr hpos hintent hunbalanced

end Events

/-- Two orders of one workflow instance whose containers are being activated. -/
def activatingOrders : Partition :=
  (OrderProcess.engine.drain 2 ((OrderProcess.ordered 3).append (OrderProcess.order 3))).2

/-- The first of these containers is terminated, which takes the tokens of both.
    The next record is the one that starts the second container. -/
def partedOrders : Partition :=
  (OrderProcess.engine.drain 4 (activatingOrders.append
    ((PendingRecord.external .elementTerminating (recordAt activatingOrders 3).value).withKey
      (recordAt activatingOrders 3).key))).2

theorem reaches_partedOrders :
    Reaches OrderProcess.engine (EventDriven OrderProcess.repository) 1 partedOrders := by
  have hevent : ∀ l, EventDriven OrderProcess.repository l (OrderProcess.order 3) :=
    fun l => .event (OrderProcess.awaits 3)
  have horders :
      Reaches OrderProcess.engine (EventDriven OrderProcess.repository) 1 activatingOrders :=
    ((Reaches.start.append (hevent _)).append (hevent _)).drain 2
  exact (horders.append (.termination (by decide +kernel) (by decide +kernel))).drain 4

end Engine

end WorkflowEngine
