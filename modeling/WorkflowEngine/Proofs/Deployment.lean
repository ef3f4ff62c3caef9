import WorkflowEngine.Model.Repository
import WorkflowEngine.Record.Value

/-! # Deployed Workflows Are Well-Formed

    The builder refuses a second element of an id, start events included. So a
    workflow that was built holds every container and every start event that
    was declared under its own id, and no start event belongs to two
    containers. The container in which a start event lies is therefore the one
    that a search finds, in whatever order it goes through the containers.
-/

namespace WorkflowEngine

/-! ## Entries of sorted maps -/

namespace SortedMap

variable {κ : Type u} {β : Type v}

theorem mem_of_lookup [DecidableEq κ] {k : κ} {v : β} {l : List (κ × β)}
    (h : lookup k l = some v) : (k, v) ∈ l := by
  induction l with
  | nil => cases h
  | cons hd tl ih =>
    unfold lookup at h
    split at h
    · rename_i heq
      cases heq
      cases h
      exact List.mem_cons_self
    · exact List.mem_cons_of_mem _ (ih h)

theorem lookup_of_mem [LT κ] [LE κ] [Std.IsLinearOrder κ] [Std.LawfulOrderLT κ] [DecidableEq κ]
    {k : κ} {v : β} {l : List (κ × β)} (hsorted : l.Pairwise fun a b => a.1 < b.1)
    (h : (k, v) ∈ l) : lookup k l = some v := by
  induction l with
  | nil => cases h
  | cons hd tl ih =>
    unfold lookup
    rcases List.mem_cons.mp h with rfl | h
    · rw [if_pos rfl]
    · -- The key stands behind the head, so it is greater.
      have hlt : hd.1 < k := List.rel_of_pairwise_cons hsorted h
      rw [if_neg fun heq => Std.lt_irrefl (heq ▸ hlt)]
      exact ih hsorted.of_cons h

theorem mem_values [LT κ] [LE κ] [Std.IsLinearOrder κ] [Std.LawfulOrderLT κ] [DecidableEq κ]
    {m : SortedMap κ β} {v : β} : v ∈ m.values ↔ ∃ k, m.get? k = some v := by
  unfold values get?
  constructor
  · intro h
    obtain ⟨⟨k, v⟩, hmem, rfl⟩ := List.mem_map.mp h
    exact ⟨k, lookup_of_mem m.sorted hmem⟩
  · rintro ⟨k, hk⟩
    exact List.mem_map.mpr ⟨(k, v), mem_of_lookup hk, rfl⟩

end SortedMap

/-- A composed computation succeeds if both of its parts do. -/
theorem bind_eq_ok {ε α β : Type} {x : Except ε α} {f : α → Except ε β} {b : β} :
    (x >>= f) = .ok b ↔ ∃ a, x = .ok a ∧ f a = .ok b := by
  cases x with
  | error e => simp [bind, Except.bind]
  | ok a => simp [bind, Except.bind]

namespace Workflow

/-! ## Well-formed elements -/

namespace Builder

/-- Elements that are found under their own ids, with every start event of every
    container among them, and none declared by two containers. -/
structure Elements.WellFormed (es : Elements) : Prop where
  /-- An element is found under its own id. -/
  id_eq : ∀ {id el}, es.get? id = some el → el.id = id
  /-- The start events of a container are elements. -/
  declared : ∀ {id c}, es.get? id = some (.container c) →
    ∀ ev ∈ c.startEvents, es.get? ev.id = some (.catchEvent ev)
  /-- Two containers do not declare start events of one id. -/
  disjoint : ∀ {i j c d}, es.get? i = some (.container c) → es.get? j = some (.container d) →
    ∀ ev ∈ c.startEvents, ∀ ev' ∈ d.startEvents, ev.id = ev'.id → c = d

theorem wellFormed_empty : Elements.WellFormed .empty where
  id_eq := by
    intro id el h
    cases h
  declared := by
    intro id c h
    cases h
  disjoint := by
    intro i j c d h
    cases h

theorem addElement_eq_ok_iff {es es' : Elements} {el : Element} :
    addElement es el = .ok es' ↔ es.get? el.id = none ∧ es' = es.insert el.id el := by
  unfold addElement SortedMap.contains
  cases hel : es.get? el.id with
  | none => simp [eq_comm]
  | some old => simp

/-- An element that declares nothing may join under a free id. -/
theorem Elements.WellFormed.insert {es : Elements} (h : es.WellFormed) {el : Element}
    (hfree : es.get? el.id = none) (hplain : ∀ c, el ≠ .container c) :
    Elements.WellFormed (es.insert el.id el) := by
  have hold : ∀ {id c}, (es.insert el.id el).get? id = some (.container c) →
      es.get? id = some (.container c) := by
    intro id c hc
    rw [SortedMap.get?_insert] at hc
    split at hc
    · exact absurd (Option.some.inj hc) (hplain c)
    · exact hc
  refine ⟨?_, ?_, ?_⟩
  · intro id x hx
    rw [SortedMap.get?_insert] at hx
    split at hx
    · rename_i heq
      rw [← Option.some.inj hx, heq]
    · exact h.id_eq hx
  · intro id c hc ev hev
    have hdecl := h.declared (hold hc) ev hev
    rw [SortedMap.get?_insert, if_neg, hdecl]
    intro heq
    rw [heq, hfree] at hdecl
    cases hdecl
  · intro i j c d hc hd
    exact h.disjoint (hold hc) (hold hd)

/-! ## Start events before their container -/

/-- What adding the start events of a container does: their ids were free, they
    are elements now, and nothing else changed. -/
structure AddsEvents (events : List CatchEvent) (es es' : Elements) : Prop where
  /-- The ids were free. -/
  free : ∀ ev ∈ events, es.get? ev.id = none
  /-- The events are elements. -/
  added : ∀ ev ∈ events, es'.get? ev.id = some (.catchEvent ev)
  /-- What was there stays. -/
  kept : ∀ {id el}, es.get? id = some el → es'.get? id = some el
  /-- No container was added. -/
  containers : ∀ {id c}, es'.get? id = some (.container c) → es.get? id = some (.container c)

theorem addsEvents {events : List CatchEvent} {es es' : Elements} (hwf : es.WellFormed)
    (h : events.foldlM (fun es e => addElement es (.catchEvent e)) es = .ok es') :
    AddsEvents events es es' ∧ es'.WellFormed := by
  induction events generalizing es with
  | nil =>
    cases h
    exact ⟨⟨by simp, by simp, id, id⟩, hwf⟩
  | cons ev events ih =>
    rw [List.foldlM_cons] at h
    obtain ⟨mid, hadd, h⟩ := bind_eq_ok.mp h
    obtain ⟨hfree, rfl⟩ := addElement_eq_ok_iff.mp hadd
    obtain ⟨hrest, hwf'⟩ := ih (hwf.insert hfree (by simp)) h
    have hself : (es.insert ev.id (.catchEvent ev)).get? ev.id = some (.catchEvent ev) := by simp
    have hmono : ∀ {id el}, es.get? id = some el →
        (es.insert ev.id (.catchEvent ev)).get? id = some el := by
      intro id el hel
      rw [SortedMap.get?_insert, if_neg, hel]
      rintro rfl
      rw [show es.get? ev.id = none from hfree] at hel
      cases hel
    refine ⟨⟨?_, ?_, ?_, ?_⟩, hwf'⟩
    · intro x hx
      rcases List.mem_cons.mp hx with rfl | hx
      · exact hfree
      · -- What is free after the first event was free before it.
        have hlater : (es.insert ev.id (.catchEvent ev)).get? x.id = none := hrest.free x hx
        cases hx' : es.get? x.id with
        | none => rfl
        | some el =>
          have hkept := hmono hx'
          rw [hlater] at hkept
          cases hkept
    · intro x hx
      rcases List.mem_cons.mp hx with rfl | hx
      · exact hrest.kept hself
      · exact hrest.added x hx
    · intro id el hel
      exact hrest.kept (hmono hel)
    · intro id c hc
      have hmid := hrest.containers hc
      rw [SortedMap.get?_insert] at hmid
      split at hmid
      · cases hmid
      · exact hmid

/-! ## Containers and nodes -/

/-- A container may join after its start events, whose ids were free. -/
theorem wellFormed_insert_container {es mid : Elements} {c : Container} (hwf : es.WellFormed)
    (hmid : mid.WellFormed) (hadds : AddsEvents c.startEvents es mid)
    (hfree : mid.get? c.id = none) : Elements.WellFormed (mid.insert c.id (.container c)) := by
  -- A start event of an older container was there before those of `c`.
  have hnew : ∀ {j d}, mid.get? j = some (.container d) →
      ∀ ev ∈ c.startEvents, ∀ ev' ∈ d.startEvents, ev.id ≠ ev'.id := by
    intro j d hd ev hev ev' hev' heq
    have hthere := hwf.declared (hadds.containers hd) ev' hev'
    rw [← heq, hadds.free ev hev] at hthere
    cases hthere
  have hkeep : ∀ {ev : CatchEvent}, mid.get? ev.id = some (.catchEvent ev) →
      (mid.insert c.id (.container c)).get? ev.id = some (.catchEvent ev) := by
    intro ev hev
    rw [SortedMap.get?_insert, if_neg, hev]
    intro heq
    rw [heq, hfree] at hev
    cases hev
  refine ⟨?_, ?_, ?_⟩
  · intro id el hel
    rw [SortedMap.get?_insert] at hel
    split at hel
    · rename_i heq
      rw [← Option.some.inj hel, heq]
      rfl
    · exact hmid.id_eq hel
  · intro id d hd ev hev
    rw [SortedMap.get?_insert] at hd
    split at hd
    · cases hd
      exact hkeep (hadds.added ev hev)
    · exact hkeep (hmid.declared hd ev hev)
  · intro i j d d' hd hd' ev hev ev' hev' heq
    rw [SortedMap.get?_insert] at hd hd'
    split at hd
    · cases hd
      split at hd'
      · cases hd'
        rfl
      · exact absurd heq (hnew hd' ev hev ev' hev')
    · split at hd'
      · cases hd'
        exact absurd heq.symm (hnew hd ev' hev' ev hev)
      · exact hmid.disjoint hd hd' ev hev ev' hev' heq

theorem wellFormed_addContainer {es es' : Elements} {d : ContainerDeclaration} (hwf : es.WellFormed)
    (h : addContainer es d = .ok es') : es'.WellFormed := by
  obtain ⟨c, -, h⟩ := bind_eq_ok.mp h
  obtain ⟨mid, hevents, h⟩ := bind_eq_ok.mp h
  obtain ⟨hadds, hmid⟩ := addsEvents hwf hevents
  obtain ⟨hfree, rfl⟩ := addElement_eq_ok_iff.mp h
  exact wellFormed_insert_container hwf hmid hadds hfree

theorem wellFormed_addNode {es es' : Elements} {d : NodeDeclaration} (hwf : es.WellFormed)
    (h : addNode es d = .ok es') : es'.WellFormed := by
  unfold addNode at h
  split at h
  · cases h
  · obtain ⟨hfree, rfl⟩ := addElement_eq_ok_iff.mp h
    exact hwf.insert hfree (by simp)

/-- What a declaration keeps, a list of declarations keeps. -/
theorem wellFormed_foldlM {δ : Type} {add : Elements → δ → Except EngineError Elements}
    (hadd : ∀ {es es' d}, es.WellFormed → add es d = .ok es' → es'.WellFormed)
    {ds : List δ} {es es' : Elements} (hwf : es.WellFormed) (h : ds.foldlM add es = .ok es') :
    es'.WellFormed := by
  induction ds generalizing es with
  | nil =>
    cases h
    exact hwf
  | cons d ds ih =>
    rw [List.foldlM_cons] at h
    obtain ⟨mid, hd, h⟩ := bind_eq_ok.mp h
    exact ih (hadd hwf hd) h

end Builder

/-- **Built workflows are well-formed.** -/
theorem wellFormed_of_build {b : Builder} {w : Workflow} (h : b.build = .ok w) :
    Builder.Elements.WellFormed w.elements := by
  obtain ⟨mid, hcontainers, h⟩ := bind_eq_ok.mp h
  obtain ⟨es, hnodes, h⟩ := bind_eq_ok.mp h
  have hmid := Builder.wellFormed_foldlM Builder.wellFormed_addContainer Builder.wellFormed_empty
    hcontainers
  have hes := Builder.wellFormed_foldlM Builder.wellFormed_addNode hmid hnodes
  -- The check that there is a process does not change the elements.
  simp only at h
  split at h
  · cases h
    exact hes
  · cases h

/-! ## Finding containers -/

section Search

variable {w : Workflow} {c : Container}

theorem mem_containers (h : Builder.Elements.WellFormed w.elements) :
    c ∈ w.containers ↔ w.element? c.id = some (.container c) := by
  unfold containers
  rw [List.mem_filterMap]
  constructor
  · rintro ⟨el, hel, hc⟩
    cases el with
    | container d =>
      obtain rfl : d = c := Option.some.inj hc
      obtain ⟨id, hid⟩ := SortedMap.mem_values.mp hel
      obtain rfl : d.id = id := h.id_eq hid
      exact hid
    | catchEvent ev => cases hc
    | node id kind => cases hc
  · intro hc
    exact ⟨.container c, SortedMap.mem_values.mpr ⟨c.id, hc⟩, rfl⟩

/-- The search finds the container that declares a start event. -/
theorem flowScopeOf?_eq_some (h : Builder.Elements.WellFormed w.elements) (hc : c ∈ w.containers)
    {ev : CatchEvent} (hev : ev ∈ c.startEvents) : w.flowScopeOf? ev.id = some c := by
  unfold flowScopeOf?
  cases hfound : w.containers.find? fun d => (d.startEvent? ev.id).isSome with
  | none =>
    have hnone := List.find?_eq_none.mp hfound c hc
    have hsome : (c.startEvent? ev.id).isSome = true := by
      unfold Container.startEvent?
      rw [List.find?_isSome]
      exact ⟨ev, hev, by simp⟩
    exact absurd hsome hnone
  | some d =>
    -- Whichever container the search finds, it declares an event of the same id.
    have hd := List.mem_of_find?_eq_some hfound
    have hsome : (d.startEvent? ev.id).isSome = true := by simpa using List.find?_some hfound
    unfold Container.startEvent? at hsome
    rw [List.find?_isSome] at hsome
    obtain ⟨ev', hev', heq⟩ := hsome
    have hid : ev'.id = ev.id := by simpa using heq
    rw [h.disjoint ((mem_containers h).mp hd) ((mem_containers h).mp hc) ev' hev' ev hev hid]

end Search

end Workflow

/-! ## Deployed workflows -/

namespace Repository

/-- The repositories that deploying built workflows makes. -/
inductive Deployed : Repository → Prop where
  /-- Nothing is deployed. -/
  | empty : Deployed .empty
  /-- A workflow that was built is deployed. -/
  | deploy {r r' : Repository} {b : Workflow.Builder} {w : Workflow} :
      Deployed r → b.build = .ok w → r.deploy w = .ok r' → Deployed r'

theorem Deployed.wellFormed {r : Repository} (h : r.Deployed) {k : Key} {w : Workflow}
    (hw : r.get? k = some w) : Workflow.Builder.Elements.WellFormed w.elements := by
  induction h with
  | empty => cases hw
  | deploy _ hbuild hdeploy ih =>
    unfold Repository.deploy at hdeploy
    split at hdeploy
    · cases hdeploy
    · cases hdeploy
      unfold get? at hw
      rw [SortedMap.get?_insert] at hw
      split at hw
      · cases hw
        exact Workflow.wellFormed_of_build hbuild
      · exact ih hw

/-- A value names a deployed container. -/
structure Targets (r : Repository) (v : RecordValue) (scope : Container) : Prop where
  /-- The container is part of the workflow that the value names. -/
  deployed : ∃ w, r.get? v.workflowKey = some w ∧ scope ∈ w.containers
  /-- The value names the container. -/
  named : v.elementId = scope.id

/-- A value names a start event that a deployed container declares. -/
structure Declares (r : Repository) (v : RecordValue) (scope : Container) (ev : CatchEvent) :
    Prop where
  /-- The container is part of the workflow that the value names. -/
  deployed : ∃ w, r.get? v.workflowKey = some w ∧ scope ∈ w.containers
  /-- The container declares the event. -/
  declared : ev ∈ scope.startEvents
  /-- The value names the event. -/
  named : v.elementId = ev.id

section Lookup

variable {r : Repository} {v : RecordValue} {scope scope' : Container} {ev : CatchEvent}
  {w : Workflow}

theorem Targets.lookup (hr : r.Deployed) (h : r.Targets v scope) :
    ∃ w, r.get? v.workflowKey = some w ∧ w.element? v.elementId = some (.container scope) := by
  obtain ⟨w, hw, hscope⟩ := h.deployed
  refine ⟨w, hw, ?_⟩
  rw [h.named]
  exact (Workflow.mem_containers (hr.wellFormed hw)).mp hscope

/-- A value names at most one container. -/
theorem Targets.unique (hr : r.Deployed) (h : r.Targets v scope) (h' : r.Targets v scope') :
    scope = scope' := by
  obtain ⟨w, hw, hel⟩ := h.lookup hr
  obtain ⟨w', hw', hel'⟩ := h'.lookup hr
  obtain rfl : w = w' := Option.some.inj (hw.symm.trans hw')
  exact Element.container.inj (Option.some.inj (hel.symm.trans hel'))

/-- An element that is found as a container is the container that is named. -/
theorem targets_of_element? (hr : r.Deployed) (hw : r.get? v.workflowKey = some w)
    (hel : w.element? v.elementId = some (.container scope)) : r.Targets v scope := by
  have hwf := hr.wellFormed hw
  have hid : scope.id = v.elementId := hwf.id_eq hel
  refine ⟨⟨w, hw, ?_⟩, hid.symm⟩
  exact (Workflow.mem_containers hwf).mpr (hid ▸ hel)

/-- What the handlers look up about a start event that is declared. -/
theorem Declares.lookup (hr : r.Deployed) (h : r.Declares v scope ev) :
    ∃ w, r.get? v.workflowKey = some w ∧ w.flowScopeOf? v.elementId = some scope ∧
      w.element? v.elementId = some (.catchEvent ev) ∧
      w.element? scope.id = some (.container scope) := by
  obtain ⟨w, hw, hscope⟩ := h.deployed
  have hwf := hr.wellFormed hw
  have hel := (Workflow.mem_containers hwf).mp hscope
  refine ⟨w, hw, ?_, ?_, hel⟩
  · rw [h.named]
    exact Workflow.flowScopeOf?_eq_some hwf hscope h.declared
  · rw [h.named]
    exact hwf.declared hel ev h.declared

/-- The container in which a start event is found declares it. -/
theorem declares_of_flowScopeOf? (hw : r.get? v.workflowKey = some w)
    (hscope : w.flowScopeOf? v.elementId = some scope) : ∃ ev, r.Declares v scope ev := by
  unfold Workflow.flowScopeOf? at hscope
  have hsome : (scope.startEvent? v.elementId).isSome = true := by
    simpa using List.find?_some hscope
  unfold Container.startEvent? at hsome
  rw [List.find?_isSome] at hsome
  obtain ⟨ev, hev, hid⟩ := hsome
  exact ⟨ev, ⟨w, hw, List.mem_of_find?_eq_some hscope⟩, hev, (beq_iff_eq.mp hid).symm⟩

end Lookup

/-- A deployed container waits for an event: it declares the start event `ev`
    that a value names, and it is not started without any event. -/
structure Awaits (r : Repository) (v : RecordValue) (scope : Container) (ev : CatchEvent) :
    Prop where
  /-- The container is part of the workflow that the value names. -/
  deployed : ∃ w, r.get? v.workflowKey = some w ∧ scope ∈ w.containers
  /-- The container declares the event. -/
  declared : ev ∈ scope.startEvents
  /-- The value names the event. -/
  named : v.elementId = ev.id
  /-- The event is a start event. -/
  kind : ev.kind = .startEvent
  /-- The start event that is declared first does not fire at once. -/
  first : scope.firstStartEvent.isNone = false

theorem Awaits.declares {r : Repository} {v : RecordValue} {scope : Container} {ev : CatchEvent}
    (h : r.Awaits v scope ev) : r.Declares v scope ev := ⟨h.deployed, h.declared, h.named⟩

/-- What the handlers look up about an event that a container waits for. -/
theorem Awaits.lookup {r : Repository} {v : RecordValue} {scope : Container} {ev : CatchEvent}
    (hr : r.Deployed) (h : r.Awaits v scope ev) :
    ∃ w, r.get? v.workflowKey = some w ∧ w.flowScopeOf? v.elementId = some scope ∧
      w.element? v.elementId = some (.catchEvent ev) ∧
      w.element? scope.id = some (.container scope) := h.declares.lookup hr

end Repository

/-! ## A deployed process -/

namespace OrderProcess

/-- The event that an order is placed. -/
def placed : CatchEvent := ⟨"placed", .message "order-placed" none, .startEvent⟩

/-- The process that a placed order starts. -/
def scope : Container := ⟨"order", .process, [placed], rfl, by decide⟩

/-- The declaration of the process. -/
def builder : Workflow.Builder := Workflow.Builder.process ⟨7, "order", 1, [], []⟩ [placed]

/-- The workflow of the process alone. -/
def workflow : Workflow :=
  ⟨7, "order", 1, .ofList [("order", .container scope), ("placed", .catchEvent placed)]⟩

/-- The repository with this workflow alone. -/
def repository : Repository := ⟨.ofList [(7, workflow)]⟩

/-- The value of an event that places an order in the given workflow instance. -/
def value (instanceKey : Key) : RecordValue :=
  { workflowKey := 7, instanceKey, elementId := "placed" }

theorem deployed : repository.Deployed := .deploy (b := builder) .empty rfl rfl

theorem awaits (instanceKey : Key) : repository.Awaits (value instanceKey) scope placed where
  deployed := ⟨workflow, rfl, by decide⟩
  declared := by decide
  named := rfl
  kind := rfl
  first := rfl

/-- No container starts at once. -/
theorem first_not_none {k : Key} {w : Workflow} (hw : repository.get? k = some w) :
    ∀ c ∈ w.containers, c.firstStartEvent.isNone = false := by
  have hget : repository.get? k = if k = 7 then some workflow else none := by
    show SortedMap.get? (SortedMap.insert .empty 7 workflow) k = _
    rw [SortedMap.get?_insert, SortedMap.get?_empty]
  rw [hget] at hw
  split at hw
  · cases hw
    decide
  · cases hw

end OrderProcess

end WorkflowEngine
