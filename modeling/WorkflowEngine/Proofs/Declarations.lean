import WorkflowEngine.Proofs.OwnKeys

/-! # What the Builder Accepts

    A workflow is built by any sequence of calls that declare its process, its
    sub-processes and its plain nodes. The builder accepts the calls exactly
    if they are well-formed (`Builder.WellFormed`), and the workflow then keeps
    what they declare and nothing else (`Builder.Keeps`).

    ### How the proof goes

    Adding a declaration either succeeds, and then what it declares joins the
    elements, or is refused, and then it is defective by itself or one of its
    ids is taken. `Builder.Adds` states this for one declaration, and it holds
    for two declarations in a row if it holds for each. So the loops over the
    start events, the containers and the plain nodes are one argument.
-/

namespace WorkflowEngine

namespace Workflow.Builder

/-! ## Calls -/

/-- A call on a builder. -/
inductive Call where
  | process (startEvents : List CatchEvent)
  | subProcess (id : String) (startEvents : List CatchEvent)
  | node (id : String) (kind : ElementKind)

namespace Call

/-- The builder after a call. -/
def perform (b : Builder) : Call → Builder
  | process startEvents => b.process startEvents
  | subProcess id startEvents => b.subProcess id startEvents
  | node id kind => b.node id kind

/-- Whether the call declares a container. -/
def isScope : Call → Bool
  | process _ | subProcess .. => true
  | node .. => false

/-- The start events that the call declares. -/
def startEvents : Call → List CatchEvent
  | process startEvents | subProcess _ startEvents => startEvents
  | node .. => []

/-- The kind of the container or node. -/
def kind : Call → ElementKind
  | process _ => .process
  | subProcess .. => .subProcess
  | node _ kind => kind

/-- The id of the container or node, where the process has the id `pid`. -/
def id (pid : String) : Call → String
  | process _ => pid
  | subProcess id _ | node id _ => id

/-- All ids that the call declares. -/
def ids (pid : String) (c : Call) : List String := c.startEvents.map (·.id) ++ [c.id pid]

/-- A container is declared with a start event, a plain node with a kind that
    has none. -/
def Sound (c : Call) : Prop :=
  if c.isScope then c.startEvents ≠ [] else c.kind.isContainer = false

/-- An element that the call declares. -/
inductive Declares (pid : String) : Call → Element → Prop where
  | process {s : Container} : s.id = pid → s.kind = .process →
      Declares pid (.process s.startEvents) (.container s)
  | subProcess {s : Container} : s.kind = .subProcess →
      Declares pid (.subProcess s.id s.startEvents) (.container s)
  | startEvent {c : Call} {ev : CatchEvent} :
      ev ∈ c.startEvents → Declares pid c (.catchEvent ev)
  | node (id : String) (kind : ElementKind) : Declares pid (.node id kind) (.node id kind)

end Call

/-- The builder after calls on a new one. -/
def declared (key : Key) (pid : String) (version : Nat) (calls : List Call) : Builder :=
  calls.foldl Call.perform ⟨key, pid, version, [], []⟩

/-- The calls declare a workflow. -/
structure WellFormed (pid : String) (calls : List Call) : Prop where
  /-- Every declaration is one by itself. -/
  sound : ∀ c ∈ calls, c.Sound
  /-- No id is declared twice. -/
  distinct : (calls.flatMap (Call.ids pid)).Nodup
  /-- A container has the id of the process. -/
  rooted : ∃ c ∈ calls, c.isScope = true ∧ c.id pid = pid

/-- The workflow has what the calls declare under the declared ids, and nothing else. -/
structure Keeps (w : Workflow) (pid : String) (calls : List Call) : Prop where
  /-- A container is found with its start events in the order of their declaration. -/
  containers : ∀ c ∈ calls, c.isScope = true →
    ∃ s, w.element? (c.id pid) = some (.container s) ∧
    s.id = c.id pid ∧ s.kind = c.kind ∧ s.startEvents = c.startEvents
  startEvents : ∀ c ∈ calls, ∀ ev ∈ c.startEvents, w.element? ev.id = some (.catchEvent ev)
  nodes : ∀ id kind, Call.node id kind ∈ calls → w.element? id = some (.node id kind)
  nothingElse : ∀ id, id ∉ calls.flatMap (Call.ids pid) → w.element? id = none
  /-- A call declares its start events and one element beside them. -/
  size : w.size = (calls.flatMap Call.startEvents).length + calls.length

/-! ## Adding declarations -/

/-- Adding to the elements `els` what `declares` says, under the given ids, either succeeds or is
    refused for a reason. -/
inductive Adds (els : List Element) (sound : Prop) (ids : List String)
    (declares : Element → Prop) : Except EngineError Elements → Prop where
  /-- What is declared has joined the elements. -/
  | accepted {es : Elements} {new : List Element} : sound → es.Holds Element.id (els ++ new) →
      new.map Element.id = ids → (∀ el, el ∈ new ↔ declares el) →
        Adds els sound ids declares (.ok es)
  /-- The declaration is defective, or an id is taken. -/
  | refused {text : String} : ¬(sound ∧ (els.map Element.id ++ ids).Nodup) →
      Adds els sound ids declares (.error (.invalidArgument text))

section Adding

variable {es : Elements} {els : List Element} {pid : String}

theorem Adds.congr {s s' : Prop} {ids ids' : List String} {d d' : Element → Prop}
    {x : Except EngineError Elements} (h : Adds els s ids d x) (hs : s ↔ s') (hi : ids = ids')
    (hd : ∀ el, d el ↔ d' el) : Adds els s' ids' d' x := by
  subst hi
  cases h with
  | accepted hsound hes hids hnew =>
    exact .accepted (hs.mp hsound) hes hids fun el => (hnew el).trans (hd el)
  | refused hnot =>
    rw [hs] at hnot
    exact .refused hnot

/-- One declaration after the other. -/
theorem Adds.bind {s₁ s₂ : Prop} {ids₁ ids₂ : List String} {d₁ d₂ : Element → Prop}
    {x : Except EngineError Elements} {f : Elements → Except EngineError Elements}
    (h : Adds els s₁ ids₁ d₁ x)
    (hf : ∀ es els', es.Holds Element.id els' → Adds els' s₂ ids₂ d₂ (f es)) :
    Adds els (s₁ ∧ s₂) (ids₁ ++ ids₂) (fun el => d₁ el ∨ d₂ el) (x >>= f) := by
  cases h with
  | @accepted es new hsound hes hids hnew =>
    -- The second declaration meets the elements that the first one has added.
    have hrest := hf es (els ++ new) hes
    show Adds els (s₁ ∧ s₂) (ids₁ ++ ids₂) _ (f es)
    generalize f es = y at hrest
    cases hrest with
    | @accepted es' new' hsound' hes' hids' hnew' =>
      rw [List.append_assoc] at hes'
      apply Adds.accepted ⟨hsound, hsound'⟩ hes'
      · rw [List.map_append, hids, hids']
      · intro el
        rw [List.mem_append, hnew, hnew']
    | refused hnot =>
      apply Adds.refused
      rintro ⟨⟨_, hsound'⟩, hnodup⟩
      apply hnot
      rw [List.map_append, hids, List.append_assoc]
      exact ⟨hsound', hnodup⟩
  | refused hnot =>
    apply Adds.refused
    rintro ⟨⟨hsound, _⟩, hnodup⟩
    rw [← List.append_assoc] at hnodup
    exact hnot ⟨hsound, (List.nodup_append.mp hnodup).1⟩

/-- What one declaration does, a list of declarations does. -/
theorem adds_foldlM {δ : Type} {add : Elements → δ → Except EngineError Elements}
    {sound : δ → Prop} {ids : δ → List String} {declares : δ → Element → Prop}
    (hadd : ∀ es els d, es.Holds Element.id els →
      Adds els (sound d) (ids d) (declares d) (add es d))
    (ds : List δ) (hes : es.Holds Element.id els) :
    Adds els (∀ d ∈ ds, sound d) (ds.flatMap ids) (fun el => ∃ d ∈ ds, declares d el)
      (ds.foldlM add es) := by
  induction ds generalizing es els with
  | nil =>
    rw [← List.append_nil els] at hes
    exact .accepted (by simp) hes rfl (by simp)
  | cons d ds ih =>
    rw [List.foldlM_cons, List.flatMap_cons]
    have hboth :=
      (hadd es els d hes).bind (f := fun es => ds.foldlM add es) fun es els hes => ih hes
    apply hboth.congr
    · simp
    · rfl
    · simp

theorem adds_element (hes : es.Holds Element.id els) (el : Element) :
    Adds els True [el.id] (· = el) (addElement es el) := by
  unfold addElement SortedMap.contains
  cases hget : es.get? el.id with
  | none => exact .accepted trivial (hes.insert hget) rfl (by simp)
  | some old =>
    -- The element that is there already has the same id.
    apply Adds.refused
    rintro ⟨-, hnodup⟩
    obtain ⟨hold, hid⟩ := hes.get?_eq_some_iff.mp hget
    have hmem : el.id ∈ els.map Element.id := hid ▸ List.mem_map_of_mem hold
    exact (List.nodup_append.mp hnodup).2.2 _ hmem _ (List.mem_singleton_self _) rfl

/-! ### Containers and nodes -/

/-- A container and its start events. -/
theorem adds_container {d : ContainerDeclaration} (hkind : d.kind.isContainer = true)
    (hes : es.Holds Element.id els) :
    Adds els (d.startEvents ≠ []) (d.startEvents.map (·.id) ++ [d.id])
      (fun el => (∃ ev ∈ d.startEvents, el = .catchEvent ev) ∨
        ∃ s : Container, el = .container s ∧ s.id = d.id ∧ s.kind = d.kind ∧
          s.startEvents = d.startEvents)
      (addContainer es d) := by
  by_cases hevents : d.startEvents = []
  · have hrefused : addContainer es d =
        .error (.invalidArgument ("container '" ++ d.id ++ "' has no start event")) := by
      unfold addContainer Container.create
      rw [dif_pos hkind, dif_pos hevents]
      rfl
    rw [hrefused]
    apply Adds.refused
    rintro ⟨hne, -⟩
    exact hne hevents
  · have hcreated : addContainer es d =
        d.startEvents.foldlM (fun es ev => addElement es (.catchEvent ev)) es >>= fun es =>
          addElement es (.container ⟨d.id, d.kind, d.startEvents, hkind, hevents⟩) := by
      unfold addContainer Container.create
      rw [dif_pos hkind, dif_neg hevents]
      rfl
    rw [hcreated]
    apply ((adds_foldlM (fun es els ev hes => adds_element hes (.catchEvent ev))
      d.startEvents hes).bind fun es els hes => adds_element hes _).congr
    · simp [hevents]
    · rw [List.map_eq_flatMap]
      rfl
    · intro el
      apply or_congr_right
      constructor
      · rintro rfl
        exact ⟨_, rfl, rfl, rfl, rfl⟩
      · rintro ⟨s, rfl, hid, hk, hevs⟩
        cases s
        cases hid
        cases hk
        cases hevs
        rfl

theorem adds_node (d : NodeDeclaration) (hes : es.Holds Element.id els) :
    Adds els (d.kind.isContainer = false) [d.id] (· = .node d.id d.kind) (addNode es d) := by
  unfold addNode
  by_cases hkind : d.kind.isContainer = true
  · rw [if_pos hkind]
    apply Adds.refused
    rintro ⟨hplain, -⟩
    rw [hkind] at hplain
    cases hplain
  · rw [if_neg hkind]
    apply (adds_element hes (.node d.id d.kind)).congr
    · simp [hkind]
    · rfl
    · intro el
      exact Iff.rfl

/-! ### The calls, containers first -/

/-- Add what a call declares. -/
def Call.add (pid : String) (es : Elements) : Call → Except EngineError Elements
  | .process startEvents => addContainer es ⟨pid, .process, startEvents⟩
  | .subProcess id startEvents => addContainer es ⟨id, .subProcess, startEvents⟩
  | .node id kind => addNode es ⟨id, kind⟩

theorem adds_call (c : Call) (hes : es.Holds Element.id els) :
    Adds els c.Sound (c.ids pid) (c.Declares pid) (c.add pid es) := by
  cases c with
  | process events =>
    apply (adds_container (d := ⟨pid, .process, events⟩) rfl hes).congr
    · exact Iff.rfl
    · rfl
    · intro el
      constructor
      · rintro (⟨ev, hev, rfl⟩ | ⟨s, rfl, hid, hkind, hevs⟩)
        · exact .startEvent hev
        · cases hevs
          exact .process hid hkind
      · rintro (⟨hid, hkind⟩ | _ | hev)
        · exact .inr ⟨_, rfl, hid, hkind, rfl⟩
        · exact .inl ⟨_, hev, rfl⟩
  | subProcess id events =>
    apply (adds_container (d := ⟨id, .subProcess, events⟩) rfl hes).congr
    · exact Iff.rfl
    · rfl
    · intro el
      constructor
      · rintro (⟨ev, hev, rfl⟩ | ⟨s, rfl, hid, hkind, hevs⟩)
        · exact .startEvent hev
        · cases hid
          cases hevs
          exact .subProcess hkind
      · rintro (_ | hkind | hev)
        · exact .inr ⟨_, rfl, rfl, hkind, rfl⟩
        · exact .inl ⟨_, hev, rfl⟩
  | node id kind =>
    apply (adds_node ⟨id, kind⟩ hes).congr
    · exact Iff.rfl
    · rfl
    · intro el
      constructor
      · rintro rfl
        exact .node id kind
      · rintro (_ | _ | hev)
        · cases hev
        · rfl

end Adding

section Calls

variable {pid : String} {c : Call} {s : Container}

theorem Call.Declares.container (h : c.Declares pid (.container s)) :
    c.isScope = true ∧ s.id = c.id pid ∧ s.kind = c.kind ∧ s.startEvents = c.startEvents := by
  cases h with
  | process hid hkind => exact ⟨rfl, hid, hkind, rfl⟩
  | subProcess hkind => exact ⟨rfl, rfl, hkind, rfl⟩

/-- A sound call that declares a container declares one. -/
theorem Call.Sound.exists_container (h : c.Sound) (hscope : c.isScope = true) (pid : String) :
    ∃ s : Container, c.Declares pid (.container s) := by
  unfold Sound at h
  rw [if_pos hscope] at h
  cases c with
  | process events =>
    exact ⟨_, .process (s := ⟨pid, .process, events, rfl, h⟩) rfl rfl⟩
  | subProcess id events =>
    exact ⟨_, .subProcess (s := ⟨id, .subProcess, events, rfl, h⟩) rfl⟩
  | node id kind => cases hscope

theorem length_ids (pid : String) (calls : List Call) :
    (calls.flatMap (Call.ids pid)).length =
      (calls.flatMap Call.startEvents).length + calls.length := by
  induction calls with
  | nil => rfl
  | cons c calls ih =>
    rw [List.flatMap_cons, List.flatMap_cons, List.length_append, List.length_append, ih]
    simp [Call.ids]
    omega

/-- The calls in the order in which what they declare is added. -/
def containersFirst (calls : List Call) : List Call :=
  calls.filter (·.isScope) ++ calls.filter fun c => !c.isScope

theorem containersFirst_perm (calls : List Call) : (containersFirst calls).Perm calls :=
  List.filter_append_perm _ calls

/-- The loop over the declared containers runs through the calls that declare one. -/
theorem containers_performed (calls : List Call) (b : Builder) (es : Elements) :
    (calls.foldl Call.perform b).containers.foldlM addContainer es =
      b.containers.foldlM addContainer es >>= fun es =>
        (calls.filter (·.isScope)).foldlM (Call.add b.processId) es := by
  -- Every call changes the builder that the later ones work on.
  induction calls generalizing b with
  | nil => simp
  | cons c calls ih =>
    rw [List.foldl_cons, ih]
    cases c <;> simp [Call.perform, process, subProcess, node, Call.isScope, Call.add]

/-- The loop over the declared nodes runs through the other calls. -/
theorem nodes_performed (calls : List Call) (b : Builder) (es : Elements) :
    (calls.foldl Call.perform b).nodes.foldlM addNode es =
      b.nodes.foldlM addNode es >>= fun es =>
        (calls.filter fun c => !c.isScope).foldlM (Call.add b.processId) es := by
  induction calls generalizing b with
  | nil => simp
  | cons c calls ih =>
    rw [List.foldl_cons, ih]
    cases c <;> simp [Call.perform, process, subProcess, node, Call.isScope, Call.add]

theorem named_performed (calls : List Call) (b : Builder) :
    (calls.foldl Call.perform b).key = b.key ∧
      (calls.foldl Call.perform b).processId = b.processId ∧
      (calls.foldl Call.perform b).version = b.version := by
  induction calls generalizing b with
  | nil => exact ⟨rfl, rfl, rfl⟩
  | cons c calls ih =>
    rw [List.foldl_cons]
    obtain ⟨hkey, hpid, hversion⟩ := ih (Call.perform b c)
    rw [hkey, hpid, hversion]
    cases c <;> exact ⟨rfl, rfl, rfl⟩

/-- Building adds what the calls declare, and then looks for the process. -/
theorem build_declared (key : Key) (pid : String) (version : Nat) (calls : List Call) :
    (declared key pid version calls).build =
      (containersFirst calls).foldlM (Call.add pid) .empty >>= fun es =>
        if (process? ⟨key, pid, version, es⟩).isSome then .ok ⟨key, pid, version, es⟩
        else .error (.invalidArgument ("workflow '" ++ pid ++ "' has no process scope")) := by
  obtain ⟨hkey, hpid, hversion⟩ := named_performed calls ⟨key, pid, version, [], []⟩
  unfold build declared containersFirst
  simp only [containers_performed, nodes_performed, hkey, hpid, hversion, List.foldlM_append,
    List.foldlM_nil, pure_bind, bind_assoc]

/-! ## What is built -/

/-- How building ends after calls. -/
inductive Built (key : Key) (pid : String) (version : Nat) (calls : List Call) :
    Except EngineError Workflow → Prop where
  /-- The calls declare a workflow, and its elements are what they declare. -/
  | accepted {es : Elements} {els : List Element} : WellFormed pid calls →
      es.Holds Element.id els → (els.map Element.id).Perm (calls.flatMap (Call.ids pid)) →
      (∀ el, el ∈ els ↔ ∃ c ∈ calls, c.Declares pid el) →
      Built key pid version calls (.ok ⟨key, pid, version, es⟩)
  /-- They do not. -/
  | refused {text : String} : ¬WellFormed pid calls →
      Built key pid version calls (.error (.invalidArgument text))

/-- The look-up of the process finds a container that was declared under its id. -/
theorem process?_isSome_iff {calls : List Call} {es : Elements} {els : List Element}
    (hes : es.Holds Element.id els)
    (hels : ∀ el, el ∈ els ↔ ∃ c ∈ calls, c.Declares pid el)
    (hsound : ∀ c ∈ calls, c.Sound) (key : Key) (version : Nat) :
    (process? ⟨key, pid, version, es⟩).isSome ↔
      ∃ c ∈ calls, c.isScope = true ∧ c.id pid = pid := by
  rw [Option.isSome_iff_exists]
  constructor
  · rintro ⟨s, hs⟩
    obtain ⟨el, hel, hcontainer⟩ := Option.bind_eq_some_iff.mp hs
    cases el with
    | container t =>
      obtain ⟨hmem, hid⟩ := hes.get?_eq_some_iff.mp hel
      obtain ⟨c, hc, hdeclares⟩ := (hels _).mp hmem
      obtain ⟨hscope, hcid, -, -⟩ := hdeclares.container
      exact ⟨c, hc, hscope, hcid.symm.trans hid⟩
    | catchEvent ev => cases hcontainer
    | node id kind => cases hcontainer
  · rintro ⟨c, hc, hscope, hcid⟩
    obtain ⟨s, hdeclares⟩ := (hsound c hc).exists_container hscope pid
    obtain ⟨-, hid, -, -⟩ := hdeclares.container
    refine ⟨s, Option.bind_eq_some_iff.mpr ⟨.container s, ?_, rfl⟩⟩
    exact hes.get?_eq_some_iff.mpr ⟨(hels _).mpr ⟨c, hc, hdeclares⟩, hid.trans hcid⟩

theorem built_declared (key : Key) (pid : String) (version : Nat) (calls : List Call) :
    Built key pid version calls (declared key pid version calls).build := by
  -- That containers come first changes neither which ids there are nor what is declared.
  have hperm := containersFirst_perm calls
  have hids :
      ((containersFirst calls).flatMap (Call.ids pid)).Perm (calls.flatMap (Call.ids pid)) :=
    hperm.flatMap_right _
  have hadds : Adds [] _ _ _ ((containersFirst calls).foldlM (Call.add pid) .empty) :=
    adds_foldlM (fun es els c hes => adds_call c hes) (containersFirst calls)
      (SortedMap.holds_empty Element.id)
  rw [build_declared]
  generalize (containersFirst calls).foldlM (Call.add pid) .empty = x at hadds
  cases hadds with
  | @accepted es new hsound hes hnew hdeclares =>
    have hsound' : ∀ c ∈ calls, c.Sound := fun c hc => hsound c (hperm.mem_iff.mpr hc)
    have hels : ∀ el, el ∈ [] ++ new ↔ ∃ c ∈ calls, c.Declares pid el := by
      intro el
      rw [List.nil_append, hdeclares]
      simp only [hperm.mem_iff]
    have hdistinct : (calls.flatMap (Call.ids pid)).Nodup := by
      rw [← hids.nodup_iff, ← hnew]
      exact hes.nodup
    have hroot := process?_isSome_iff hes hels hsound' key version
    show Built key pid version calls (if _ then _ else _)
    split
    · rename_i hsome
      apply Built.accepted ⟨hsound', hdistinct, hroot.mp hsome⟩ hes _ hels
      rw [List.nil_append, hnew]
      exact hids
    · rename_i hnone
      apply Built.refused
      intro hwf
      exact hnone (hroot.mpr hwf.rooted)
  | refused hnot =>
    apply Built.refused
    intro hwf
    apply hnot
    refine ⟨fun c hc => hwf.sound c (hperm.mem_iff.mp hc), ?_⟩
    rw [List.map_nil, List.nil_append, hids.nodup_iff]
    exact hwf.distinct

variable {key : Key} {version : Nat} {calls : List Call} {w : Workflow}

theorem built_of_build (h : (declared key pid version calls).build = .ok w) :
    Built key pid version calls (.ok w) := by
  rw [← h]
  exact built_declared key pid version calls

theorem named_of_build (h : (declared key pid version calls).build = .ok w) :
    w.key = key ∧ w.processId = pid ∧ w.version = version := by
  cases built_of_build h with
  | accepted _ _ _ _ => exact ⟨rfl, rfl, rfl⟩

theorem wellFormed_calls_of_build (h : (declared key pid version calls).build = .ok w) :
    WellFormed pid calls := by
  cases built_of_build h with
  | accepted hwf _ _ _ => exact hwf

theorem build_of_wellFormed (h : WellFormed pid calls) (key : Key) (version : Nat) :
    ∃ w, (declared key pid version calls).build = .ok w := by
  have hbuilt := built_declared key pid version calls
  generalize (declared key pid version calls).build = x at hbuilt
  cases hbuilt with
  | accepted _ _ _ _ => exact ⟨_, rfl⟩
  | refused hnot => exact absurd h hnot

/-- The elements of a built workflow are what the calls declare. -/
theorem element?_of_build (h : (declared key pid version calls).build = .ok w) {id : String}
    {el : Element} : w.element? id = some el ↔
      (∃ c ∈ calls, c.Declares pid el) ∧ el.id = id := by
  cases built_of_build h with
  | accepted _ hes _ hels =>
    rw [← hels]
    exact hes.get?_eq_some_iff

theorem keeps_of_build (h : (declared key pid version calls).build = .ok w) :
    Keeps w pid calls := by
  have hfound : ∀ id el, w.element? id = some el ↔
      (∃ c ∈ calls, c.Declares pid el) ∧ el.id = id :=
    fun _ _ => element?_of_build h
  cases built_of_build h with
  | @accepted es els hwf hes hids hels =>
    refine ⟨?_, ?_, ?_, ?_, ?_⟩
    · intro c hc hscope
      obtain ⟨s, hdeclares⟩ := (hwf.sound c hc).exists_container hscope pid
      obtain ⟨-, hid, hkind, hevents⟩ := hdeclares.container
      exact ⟨s, (hfound _ _).mpr ⟨⟨c, hc, hdeclares⟩, hid⟩, hid, hkind, hevents⟩
    · intro c hc ev hev
      exact (hfound _ _).mpr ⟨⟨c, hc, .startEvent hev⟩, rfl⟩
    · intro id kind hc
      exact (hfound _ _).mpr ⟨⟨_, hc, .node id kind⟩, rfl⟩
    · intro id hid
      apply hes.get?_eq_none_iff.mpr
      rw [hids.mem_iff]
      exact hid
    · calc es.size
          _ = els.length := hes.size_eq
          _ = (els.map Element.id).length := (List.length_map _).symm
          _ = (calls.flatMap (Call.ids pid)).length := hids.length_eq
          _ = (calls.flatMap Call.startEvents).length + calls.length := length_ids pid calls

/-- **The builder accepts exactly the well-formed calls.** It refuses all others as invalid, and a
    workflow that it builds keeps what the calls declare. -/
theorem accepts_exactly_wellFormed (key : Key) (pid : String) (version : Nat) (calls : List Call) :
    ((∃ w, (declared key pid version calls).build = .ok w) ↔ WellFormed pid calls) ∧
    (¬WellFormed pid calls →
      ∃ text, (declared key pid version calls).build = .error (.invalidArgument text)) ∧
    ∀ w, (declared key pid version calls).build = .ok w →
      w.key = key ∧ w.processId = pid ∧ w.version = version ∧ Keeps w pid calls := by
  refine ⟨⟨?_, fun hwf => build_of_wellFormed hwf key version⟩, ?_, ?_⟩
  · rintro ⟨w, hw⟩
    exact wellFormed_calls_of_build hw
  · intro hnot
    have hbuilt := built_declared key pid version calls
    generalize (declared key pid version calls).build = x at hbuilt
    cases hbuilt with
    | accepted hwf _ _ _ => exact absurd hwf hnot
    | @refused text _ => exact ⟨text, rfl⟩
  · intro w hw
    obtain ⟨hkey, hpid, hversion⟩ := named_of_build hw
    exact ⟨hkey, hpid, hversion, keeps_of_build hw⟩

end Calls

/-! ## An order with a review -/

/-- The event that an order has waited for its review for a minute. -/
def due : CatchEvent := ⟨"due", .timer (60 * Duration.second), .startEvent⟩

/-- The review is declared before the process that it belongs to. -/
def reviewedOrder : List Call :=
  [.subProcess "review" [due], .node "ship" .serviceTask,
    .process [OrderProcess.placed, ⟨"start", .none, .startEvent⟩]]

theorem wellFormed_reviewedOrder : WellFormed "order" reviewedOrder where
  sound := by simp [reviewedOrder, Call.Sound, Call.isScope, Call.startEvents, Call.kind,
    ElementKind.isContainer]
  distinct := by decide
  rooted := ⟨_, List.mem_of_getElem? (i := 2) rfl, rfl, rfl⟩

/-- It is built with all six elements, and refused with an end event that has the
    id of the timer. -/
theorem reviewedOrder_built_unless_due_twice :
    (∃ w, (declared 7 "order" 1 reviewedOrder).build = .ok w ∧ w.size = 6 ∧
      Keeps w "order" reviewedOrder) ∧
    ∃ text, (declared 7 "order" 1 (reviewedOrder ++ [.node "due" .endEvent])).build =
      .error (.invalidArgument text) := by
  constructor
  · obtain ⟨hiff, -, hkept⟩ := accepts_exactly_wellFormed 7 "order" 1 reviewedOrder
    obtain ⟨w, hw⟩ := hiff.mpr wellFormed_reviewedOrder
    obtain ⟨-, -, -, hkeeps⟩ := hkept w hw
    exact ⟨w, hw, hkeeps.size, hkeeps⟩
  · obtain ⟨-, hrefused, -⟩ :=
      accepts_exactly_wellFormed 7 "order" 1 (reviewedOrder ++ [Call.node "due" .endEvent])
    apply hrefused
    intro hwf
    exact absurd hwf.distinct (by decide)

end Workflow.Builder

end WorkflowEngine
