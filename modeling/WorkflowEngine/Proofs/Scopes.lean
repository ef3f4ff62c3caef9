import WorkflowEngine.Proofs.Declarations
import WorkflowEngine.Proofs.Steps

/-! # The Scopes of a Built Workflow

    Every start event lies in one container, which a search finds in whatever
    order it goes through the elements. An event that occurs therefore
    activates the container that declares it.

    ### The root

    The builder looks for a container under the id of the process and not for
    its kind. So a sub-process that is declared under this id is taken for the
    root, and then no container is a process (`one_process_iff`).
-/

namespace WorkflowEngine

namespace Workflow

open Builder

variable {key : Key} {pid : String} {version : Nat} {calls : List Call} {w : Workflow}
  {s t : Container}

theorem mem_containers_of_build (h : (declared key pid version calls).build = .ok w) :
    s ∈ w.containers ↔ ∃ c ∈ calls, c.Declares pid (.container s) := by
  rw [mem_containers (wellFormed_of_build h), element?_of_build h]
  exact and_iff_left rfl

/-- A call that declares a container has declared one of the workflow. -/
theorem exists_container_of_build (h : (declared key pid version calls).build = .ok w) {c : Call}
    (hc : c ∈ calls) (hscope : c.isScope = true) :
    ∃ s ∈ w.containers, s.id = c.id pid ∧ s.kind = c.kind ∧
      s.startEvents = c.startEvents := by
  obtain ⟨s, hs, hid, hkind, hevents⟩ := (keeps_of_build h).containers c hc hscope
  refine ⟨s, ?_, hid, hkind, hevents⟩
  rw [mem_containers (wellFormed_of_build h), hid]
  exact hs

/-! ## The root -/

/-- Exactly one container is a process, and it is the one that carries the process id. -/
def HasOneProcess (w : Workflow) : Prop :=
  ∃ s ∈ w.containers, w.process? = some s ∧
    ∀ t ∈ w.containers, t.kind = .process ↔ t = s

/-- A container carries the process id, and it is the only one. -/
theorem process?_of_build (h : (declared key pid version calls).build = .ok w) :
    ∃ s ∈ w.containers, w.process? = some s ∧ s.id = pid ∧
      ∀ t ∈ w.containers, t.id = pid → t = s := by
  obtain ⟨-, hpid, -⟩ := named_of_build h
  obtain ⟨c, hc, hscope, hid⟩ := (wellFormed_calls_of_build h).rooted
  obtain ⟨s, hs, hsid, -, -⟩ := exists_container_of_build h hc hscope
  rw [hid] at hsid
  have hel : w.element? pid = some (.container s) := by
    rw [← hsid]
    exact (mem_containers (wellFormed_of_build h)).mp hs
  refine ⟨s, hs, ?_, hsid, ?_⟩
  · unfold process?
    rw [hpid, hel]
    rfl
  · intro t ht htid
    rw [mem_containers (wellFormed_of_build h), htid, hel] at ht
    exact (Element.container.inj (Option.some.inj ht)).symm

/-- **One root.** One container carries the process id, and no other one can be a process. It is one
    itself exactly if no sub-process was declared under the process id. -/
theorem one_process_iff (h : (declared key pid version calls).build = .ok w) :
    (∃ s ∈ w.containers, w.process? = some s ∧ s.id = pid ∧
      ∀ t ∈ w.containers, t.kind = .process → t = s) ∧
    (w.HasOneProcess ↔ ∀ events, Call.subProcess pid events ∉ calls) := by
  obtain ⟨s, hs, hprocess, hid, honly⟩ := process?_of_build h
  have hkind : ∀ t ∈ w.containers, t.kind = .process → t = s := by
    intro t ht htkind
    apply honly t ht
    obtain ⟨c, -, hdeclares⟩ := (mem_containers_of_build h).mp ht
    cases hdeclares with
    | process htid _ => exact htid
    | subProcess hsub =>
      rw [hsub] at htkind
      cases htkind
  refine ⟨⟨s, hs, hprocess, hid, hkind⟩, ?_⟩
  constructor
  · rintro ⟨s', -, hprocess', hiff⟩ events hcall
    obtain rfl : s = s' := Option.some.inj (hprocess.symm.trans hprocess')
    -- The container of the sub-process carries the process id, so it is `s`.
    obtain ⟨t, ht, htid, htkind, -⟩ := exists_container_of_build h hcall rfl
    have htprocess : t.kind = .process := (hiff t ht).mpr (honly t ht htid)
    rw [htkind] at htprocess
    cases htprocess
  · intro hnone
    have hskind : s.kind = .process := by
      obtain ⟨c, hc, hdeclares⟩ := (mem_containers_of_build h).mp hs
      cases hdeclares with
      | process _ hskind => exact hskind
      | subProcess _ =>
        rw [hid] at hc
        exact absurd hc (hnone _)
    refine ⟨s, hs, hprocess, ?_⟩
    intro t ht
    constructor
    · exact hkind t ht
    · rintro rfl
      exact hskind

/-- A reviewed order has one process. -/
theorem one_process_reviewedOrder :
    ∃ w, (declared 7 "order" 1 reviewedOrder).build = .ok w ∧ w.HasOneProcess := by
  obtain ⟨w, hw⟩ := build_of_wellFormed wellFormed_reviewedOrder 7 1
  refine ⟨w, hw, (one_process_iff hw).2.mpr ?_⟩
  intro events hcall
  simp [reviewedOrder] at hcall

/-- A sub-process under the process id is accepted, and then no container is a process. -/
theorem subProcess_as_root :
    ∃ w, (declared 1 "order" 1 [.subProcess "order" [OrderProcess.placed]]).build = .ok w ∧
      ¬w.HasOneProcess := by
  refine ⟨⟨1, "order", 1, .ofList
    [("order", .container ⟨"order", .subProcess, [OrderProcess.placed], rfl, by decide⟩),
      ("placed", .catchEvent OrderProcess.placed)]⟩, rfl, ?_⟩
  unfold HasOneProcess
  decide

/-! ## The scope of a start event -/

theorem startEvent?_isSome_iff {id : String} :
    (s.startEvent? id).isSome = true ↔ ∃ ev ∈ s.startEvents, ev.id = id := by
  unfold Container.startEvent?
  rw [List.find?_isSome]
  simp

/-- At most one container declares a start event of an id. -/
theorem scope_unique (h : Elements.WellFormed w.elements) {id : String} (hs : s ∈ w.containers)
    (ht : t ∈ w.containers) (hsome : (s.startEvent? id).isSome = true)
    (hsome' : (t.startEvent? id).isSome = true) : s = t := by
  obtain ⟨ev, hev, hid⟩ := startEvent?_isSome_iff.mp hsome
  obtain ⟨ev', hev', hid'⟩ := startEvent?_isSome_iff.mp hsome'
  rw [mem_containers h] at hs ht
  exact h.disjoint hs ht ev hev ev' hev' (hid.trans hid'.symm)

/-- The container that declares a start event is found by it. -/
theorem flowScopeOf?_eq_some_iff_declared (h : Elements.WellFormed w.elements) {id : String} :
    w.flowScopeOf? id = some s ↔ s ∈ w.containers ∧ (s.startEvent? id).isSome = true :=
  find?_eq_some_iff_of_unique fun _ hs _ ht => scope_unique h hs ht

/-- A container of a workflow has a start event as the element of its id. -/
theorem element?_startEvent (h : Elements.WellFormed w.elements) {id : String} {ev : CatchEvent}
    (hs : s ∈ w.containers) (hev : s.startEvent? id = some ev) :
    w.element? id = some (.catchEvent ev) := by
  have hmem : ev ∈ s.startEvents := List.mem_of_find?_eq_some hev
  have hid : ev.id = id := by simpa using List.find?_some hev
  rw [← hid]
  exact h.declared ((mem_containers h).mp hs) ev hmem

/-- The search finds a container exactly if the element of the id is its start event. -/
theorem flowScopeOf?_eq_some_iff (h : Elements.WellFormed w.elements) {id : String}
    (hs : s ∈ w.containers) : w.flowScopeOf? id = some s ↔
      ∃ ev, w.element? id = some (.catchEvent ev) ∧ s.startEvent? id = some ev := by
  rw [flowScopeOf?_eq_some_iff_declared h]
  constructor
  · rintro ⟨-, hsome⟩
    obtain ⟨ev, hev⟩ := Option.isSome_iff_exists.mp hsome
    exact ⟨ev, element?_startEvent h hs hev, hev⟩
  · rintro ⟨ev, -, hev⟩
    exact ⟨hs, Option.isSome_iff_exists.mpr ⟨ev, hev⟩⟩

/-- Every event of a built workflow is the start event of a container. -/
theorem exists_scope (h : (declared key pid version calls).build = .ok w) {id : String}
    {ev : CatchEvent} (hev : w.element? id = some (.catchEvent ev)) :
    ∃ s ∈ w.containers, s.startEvent? id = some ev := by
  have hwf := wellFormed_of_build h
  obtain ⟨⟨c, hc, hdeclares⟩, hid⟩ := (element?_of_build h).mp hev
  have hmem : ev ∈ c.startEvents := by
    cases hdeclares with
    | startEvent hmem => exact hmem
  have hscope : c.isScope = true := by
    cases c with
    | process _ => rfl
    | subProcess _ _ => rfl
    | node _ _ => cases hmem
  obtain ⟨s, hs, -, -, hevents⟩ := exists_container_of_build h hc hscope
  refine ⟨s, hs, ?_⟩
  have hsome : (s.startEvent? id).isSome = true :=
    startEvent?_isSome_iff.mpr ⟨ev, hevents ▸ hmem, hid⟩
  -- Whichever start event of the id is found first, it is the element of the id.
  obtain ⟨ev', hev'⟩ := Option.isSome_iff_exists.mp hsome
  have hel := element?_startEvent hwf hs hev'
  rw [hev] at hel
  cases hel
  exact hev'

/-! ## Events that occur -/

/-- A record that activates a container of the workflow that a handled record is about. -/
structure Activates (w : Workflow) (r : Record) (s : Container) (p : PendingRecord) : Prop where
  intent : p.intent = .elementActivating
  sameWorkflow : p.value.workflowKey = r.value.workflowKey
  /-- The record resolves to the container. -/
  resolves : w.element? p.value.elementId = some (.container s)

/-- The record is found to be about the container wherever the handled one was found. -/
theorem Activates.finds {r r' : Record} {p : PendingRecord} (h : w.Activates r s p)
    (hp : p.Becomes r') {e : Engine} (hw : e.repository.get? r.value.workflowKey = some w) :
    e.Finds r' w (.container s) := by
  refine ⟨?_, ?_⟩
  · rw [hp.value, h.sameWorkflow]
    exact hw
  · rw [hp.value]
    exact h.resolves

/-- The record by which an event that occurs activates its container. -/
def activation (r : Record) (s : Container) (source : Nat) : PendingRecord :=
  .followUp .elementActivating { r.value.withInstance r.key with elementId := s.id } source

theorem activates_activation (h : Elements.WellFormed w.elements) (hs : s ∈ w.containers)
    (r : Record) (source : Nat) : w.Activates r s (activation r s source) where
  intent := rfl
  sameWorkflow := rfl
  resolves := (mem_containers h).mp hs

/-- The handler of an event that occurs emits the activation and does not fail. -/
theorem run_eventOccurred {r : Record} (hscope : w.flowScopeOf? r.value.elementId = some s)
    (el : Element) (ws : Workspace) :
    ((Handler.eventOccurred ⟨r, w, el⟩).run ws).1 = .ok () ∧
      ((Handler.eventOccurred ⟨r, w, el⟩).run ws).2.output.pending =
        ws.output.pending ++ [activation r s ws.output.sourcePosition] := by
  unfold Handler.eventOccurred
  simp only [hscope]
  exact ⟨rfl, rfl⟩

/-- The record is processed by an engine that runs this handler. -/
theorem handle_eventOccurred_run {e : Engine} {state : PartitionState} {r : Record} {el : Element}
    (hfree : state.isBlacklisted r.value.instanceKey = false)
    (hprogram : e.program? r = .ok (some (Handler.eventOccurred ⟨r, w, el⟩)))
    (hscope : w.flowScopeOf? r.value.elementId = some s) :
    ∃ state', e.handle state r = (.processed, state', [activation r s r.position]) := by
  obtain ⟨hok, hpending⟩ := run_eventOccurred hscope el (Engine.workspace state r)
  refine ⟨((Handler.eventOccurred ⟨r, w, el⟩).run (Engine.workspace state r)).2.state.commit,
    ?_⟩
  rw [Engine.handle_of_free hfree, hprogram]
  show Engine.transact state r (Handler.eventOccurred ⟨r, w, el⟩) = _
  rw [Engine.transact_of_run (Prod.ext hok rfl), hpending]
  rfl

/-- How a record of an event that occurs is answered: the container that declares the event is
    activated. -/
structure EntersScope (w : Workflow) (r : Record) (ev : CatchEvent) (s : Container) : Prop where
  /-- The standard handler does not fail and emits one record, whatever it works on. -/
  handler : ∃ handler, Registry.standard.get? ⟨ev.kind, r.intent⟩ = some handler ∧
    ∀ ws, ((handler ⟨r, w, .catchEvent ev⟩).run ws).1 = .ok () ∧
      ∃ p, ((handler ⟨r, w, .catchEvent ev⟩).run ws).2.output.pending =
        ws.output.pending ++ [p] ∧
        w.Activates r s p
  /-- The record is processed unless its workflow instance is stopped, and what it emits is found to
      be about the container. -/
  engine : ∀ (e : Engine) state, e.registry = .standard →
    e.repository.get? r.value.workflowKey = some w →
      state.isBlacklisted r.value.instanceKey = false →
    ∃ state' p, e.handle state r = (.processed, state', [p]) ∧ w.Activates r s p ∧
      ∀ r', p.Becomes r' → e.Finds r' w (.container s)

theorem entersScope (h : Elements.WellFormed w.elements) {r : Record} {ev : CatchEvent}
    (hs : s ∈ w.containers) (hev : s.startEvent? r.value.elementId = some ev)
    (hkind : ev.kind = .startEvent) (hintent : r.intent = .eventOccurred) :
    w.EntersScope r ev s := by
  have hscope : w.flowScopeOf? r.value.elementId = some s :=
    (flowScopeOf?_eq_some_iff_declared h).mpr ⟨hs, Option.isSome_iff_exists.mpr ⟨ev, hev⟩⟩
  have hget : Registry.standard.get? ⟨ev.kind, r.intent⟩ = some Handler.eventOccurred := by
    rw [hkind, hintent]
    exact Registry.standard_occurred
  refine ⟨⟨Handler.eventOccurred, hget, ?_⟩, ?_⟩
  · intro ws
    obtain ⟨hok, hpending⟩ := run_eventOccurred hscope (.catchEvent ev) ws
    exact ⟨hok, _, hpending, activates_activation h hs r _⟩
  · intro e state hstd hw hfree
    have hfinds : e.Finds r w (.catchEvent ev) := ⟨hw, element?_startEvent h hs hev⟩
    have hprogram :
        e.program? r = .ok (some (Handler.eventOccurred ⟨r, w, .catchEvent ev⟩)) := by
      rw [hfinds.program?_eq, hstd]
      show Except.ok ((Registry.standard.get? ⟨ev.kind, r.intent⟩).map _) = _
      rw [hget]
      rfl
    have hactivates := activates_activation h hs r r.position
    obtain ⟨state', hhandle⟩ := handle_eventOccurred_run hfree hprogram hscope
    exact ⟨state', _, hhandle, hactivates, fun r' hr' => hactivates.finds hr' hw⟩

/-- **Start events have one scope.** In a built workflow at most one container declares a start
    event of an id, so the search for it does not depend on the order of the elements. It finds the
    container whose start event is the element of the id, and every event is one. When such a start
    event occurs, this container is activated. -/
theorem start_events_have_one_scope (h : (declared key pid version calls).build = .ok w)
    (id : String) :
    (∀ s ∈ w.containers, ∀ t ∈ w.containers, (s.startEvent? id).isSome = true →
      (t.startEvent? id).isSome = true → s = t) ∧
    (∀ order : List Element, order.Perm w.elements.values →
      (order.filterMap Element.asContainer?).find? (fun s => (s.startEvent? id).isSome) =
        w.flowScopeOf? id) ∧
    (∀ s, w.flowScopeOf? id = some s ↔ s ∈ w.containers ∧
      ∃ ev, w.element? id = some (.catchEvent ev) ∧ s.startEvent? id = some ev) ∧
    (∀ s, w.flowScopeOf? id = some s →
      w.element? s.id = some (.container s) ∧ s.kind.isContainer = true) ∧
    ∀ ev, w.element? id = some (.catchEvent ev) → ∃ s, w.flowScopeOf? id = some s ∧
      s.startEvent? id = some ev ∧ (ev.kind = .startEvent →
        ∀ r : Record, r.value.elementId = id →
        r.intent = .eventOccurred → w.EntersScope r ev s) := by
  have hwf := wellFormed_of_build h
  have hunique : ∀ s ∈ w.containers, ∀ t ∈ w.containers,
      (s.startEvent? id).isSome = true →
      (t.startEvent? id).isSome = true → s = t := fun _ hs _ ht => scope_unique hwf hs ht
  refine ⟨hunique, ?_, ?_, ?_, ?_⟩
  · intro order horder
    exact find?_eq_of_perm hunique (horder.filterMap _)
  · intro s
    constructor
    · intro hscope
      have hs : s ∈ w.containers := ((flowScopeOf?_eq_some_iff_declared hwf).mp hscope).1
      exact ⟨hs, (flowScopeOf?_eq_some_iff hwf hs).mp hscope⟩
    · rintro ⟨hs, hev⟩
      exact (flowScopeOf?_eq_some_iff hwf hs).mpr hev
  · intro s hscope
    have hs : s ∈ w.containers := ((flowScopeOf?_eq_some_iff_declared hwf).mp hscope).1
    exact ⟨(mem_containers hwf).mp hs, s.isContainer⟩
  · intro ev hel
    obtain ⟨s, hs, hev⟩ := exists_scope h hel
    refine ⟨s, (flowScopeOf?_eq_some_iff hwf hs).mpr ⟨ev, hel, hev⟩, hev, ?_⟩
    rintro hkind r rfl hintent
    exact entersScope hwf hs hev hkind hintent

/-- When the review of an order is due, the sub-process is activated. -/
theorem due_enters_review : ∃ w s, (declared 7 "order" 1 reviewedOrder).build = .ok w ∧
    w.flowScopeOf? "due" = some s ∧ s.kind = .subProcess ∧
    w.EntersScope
      ⟨1, 5, 1, .eventOccurred, { workflowKey := 7, elementId := "due" }, none⟩ due s := by
  obtain ⟨w, hw⟩ := build_of_wellFormed wellFormed_reviewedOrder 7 1
  have hcall : .subProcess "review" [due] ∈ reviewedOrder := List.mem_cons_self
  have hel : w.element? "due" = some (.catchEvent due) :=
    (keeps_of_build hw).startEvents _ hcall due List.mem_cons_self
  obtain ⟨hunique, -, hiff, -, hevents⟩ := start_events_have_one_scope hw "due"
  obtain ⟨s, hscope, hev, henters⟩ := hevents due hel
  refine ⟨w, s, hw, hscope, ?_, henters rfl _ rfl rfl⟩
  -- The sub-process declares the event, and no other container does.
  obtain ⟨t, ht, -, hkind, hstart⟩ := exists_container_of_build hw hcall rfl
  have htdue : (t.startEvent? "due").isSome = true :=
    startEvent?_isSome_iff.mpr ⟨due, hstart ▸ List.mem_cons_self, rfl⟩
  obtain ⟨hs, -⟩ := (hiff s).mp hscope
  rw [hunique s hs t ht (Option.isSome_iff_exists.mpr ⟨due, hev⟩) htdue]
  exact hkind

end Workflow

end WorkflowEngine
