import WorkflowEngine.Node
import WorkflowEngine.Proofs.Discovery
import WorkflowEngine.Proofs.Ownership
import WorkflowEngine.Proofs.Worker

/-! # Runs of a Node

    A node that runs asks for its partitions, spawns a worker for each one that
    it owns, and tells the workers to stop when it is told so itself. The steps
    of all of them may be taken in any order. Two invariants hold all along:

    * `Discovered`: what the node owns is what a query for the partitions has
      found, and the node keeps its setup;
    * `Confined`: a worker moves no partition but its own, where it follows one
      processor, and a partition without a worker is as it was.

    ### What may come first

    Of an answer and of the stop of the node at the same moment, either may come
    first: a query takes any of the courses in `QueryPlan.Course`.
-/

namespace WorkflowEngine

/-! ## What a cancellation changes -/

namespace QueryPlan

variable {p : QueryPlan} {answers : Nat → TopologyAnswer} {retries requests clock c : Nat}
  {events : List QueryEvent} {result : QueryResult} {ids : List PartitionId}

theorem le_of_not_cancelledBefore {moment : Nat} (hcancel : p.cancelAt = some c)
    (h : ¬ p.cancelledBefore moment) : moment ≤ c := by
  simpa [cancelledBefore, hcancel] using h

theorem not_cancelledBefore_of_never (moment : Nat) :
    ¬ { p with cancelAt := none }.cancelledBefore moment := Bool.false_ne_true

namespace Course

/-- What a query has found it has found before it was cancelled. -/
theorem endedAt_le_of_found (h : p.Course answers retries requests clock events result)
    (hcancel : p.cancelAt = some c) (hids : result.retrieved = some ids) :
    result.endedAt ≤ c := by
  induction h with
  | heldBack _ => cases hids
  | cutOff _ => cases hids
  | found hcut _ => exact le_of_not_cancelledBefore hcancel hcut
  | exhausted _ _ => cases hids
  | cutWait _ _ _ => cases hids
  | retried _ _ _ _ ih => exact ih hids

/-- Without the cancellation it would have found the same. -/
theorem uncancelled (h : p.Course answers retries requests clock events result)
    (hids : result.retrieved = some ids) :
    { p with cancelAt := none }.Course answers retries requests clock events result := by
  induction h with
  | heldBack _ => cases hids
  | cutOff _ => cases hids
  | found _ hfound => exact .found (not_cancelledBefore_of_never _) hfound
  | exhausted _ _ => cases hids
  | cutWait _ _ _ => cases hids
  | retried _ hnone _ _ ih =>
    exact .retried (not_cancelledBefore_of_never _) hnone (not_cancelledBefore_of_never _) (ih hids)

end Course

end QueryPlan

/-! ## Nodes -/

/-- Whether the query for the partitions has ended. -/
def NodePhase.isResolved : NodePhase → Bool
  | .running _ | .ended => true
  | _ => false

namespace Node

variable {n m : Node Script} {f : Partition → Partition} {id : PartitionId}

/-- The part of a node that stays as it is. -/
def setup (n : Node Script) : Config × Script × Engine × (PartitionId → PartitionId) :=
  (n.config, n.client, n.engine, n.logId)

/-- The ways in which the query for the partitions may end that began at a
    moment, if it is cancelled at another one. -/
def Resolves (n : Node Script) (since : Nat) (cancelAt : Option Nat) (result : QueryResult) :
    Prop :=
  ∃ events, { n.config.cluster.queryPlan with cancelAt }.Course n.client
    n.config.cluster.maxRetries 0 since events result

/-- A node that has not run: its logs may hold records, but none is processed. -/
structure Unstarted (n : Node Script) : Prop where
  idle : n.phase = .idle
  fresh : ∀ id p, n.partitions.get? id = some p → p.processor = {}
  told : ∀ moment, n.stoppedAt = some moment → moment ≤ n.clock

theorem resolves_congr (hsame : m.setup = n.setup) : m.Resolves = n.Resolves := by
  simp only [setup, Prod.mk.injEq] at hsame
  unfold Resolves
  rw [hsame.1, hsame.2.1]

theorem ownedOf_congr (hsame : m.setup = n.setup) : m.ownedOf = n.ownedOf := by
  simp only [setup, Prod.mk.injEq] at hsame
  unfold ownedOf
  rw [hsame.1]

theorem partition_congr (hsame : m.setup = n.setup)
    (hget : m.partitions.get? id = n.partitions.get? id) : m.partition id = n.partition id := by
  simp only [setup, Prod.mk.injEq] at hsame
  unfold partition
  rw [hget, hsame.2.2.2]

theorem partition_of_get? {p : Partition} (h : n.partitions.get? id = some p) :
    n.partition id = p := by
  unfold partition
  rw [h, Option.getD_some]

theorem ownedOf_of_none {result : QueryResult} (h : result.retrieved = none) :
    n.ownedOf result = [] := by
  unfold ownedOf
  rw [h]

/-- No partition is owned twice. -/
theorem Resolves.nodup {since : Nat} {cancelAt : Option Nat} {result : QueryResult}
    (h : n.Resolves since cancelAt result) : (n.ownedOf result).Nodup := by
  cases hids : result.retrieved with
  | none =>
    rw [ownedOf_of_none hids]
    exact List.nodup_nil
  | some ids =>
    obtain ⟨events, hcourse⟩ := h
    obtain ⟨index, count, -, rfl, -⟩ := hcourse.of_found hids
    unfold ownedOf
    rw [hids]
    exact (Assignment.select_sublist _ _).nodup List.nodup_range'

theorem Unstarted.partition_processor (h : n.Unstarted) (id : PartitionId) :
    (n.partition id).processor = {} := by
  cases hget : n.partitions.get? id with
  | none =>
    unfold partition
    rw [hget]
    rfl
  | some p => rw [partition_of_get? hget, h.fresh id p hget]

/-- A node that was put together has not run. -/
theorem unstarted_of_build {b : NodeBuilder Script} (h : b.build = .ok n) : n.Unstarted := by
  unfold NodeBuilder.build at h
  split at h
  · cases h
  · cases h
  · obtain rfl := Except.ok.inj h
    exact ⟨rfl, nofun, nofun⟩

theorem Unstarted.restart_partition (h : n.Unstarted) (id : PartitionId) :
    (n.partition id).restart = n.partition id := by
  have hprocessor := h.partition_processor id
  unfold Partition.restart
  rw [← hprocessor]

/-- The query as the node makes it is one of these ways. -/
theorem resolves_query (n : Node Script) (since : Nat) (cancelAt : Option Nat) :
    n.Resolves since cancelAt
      ({ n.config.cluster.queryPlan with cancelAt }.query n.client 0 since) := by
  unfold QueryPlan.query
  split
  · rename_i hcut
    exact ⟨[], .heldBack hcut⟩
  · exact QueryPlan.attempt_course _ n.client _ 0 since

/-! ### One partition after the other -/

theorem foldl_onPartition_engine (f : Partition → Partition) (n : Node Script)
    (ids : List PartitionId) : (ids.foldl (onPartition f) n).engine = n.engine := by
  induction ids generalizing n with
  | nil => rfl
  | cons id ids ih => exact ih (n.onPartition f id)

theorem get?_onPartition (f : Partition → Partition) (n : Node Script) (id other : PartitionId) :
    (n.onPartition f id).partitions.get? other =
      if other = id then some (f (n.partition id)) else n.partitions.get? other :=
  SortedMap.get?_insert n.partitions id other _

/-- Nor has one to whose logs records were appended since. -/
theorem Unstarted.append (h : n.Unstarted) (id : PartitionId) (r : PendingRecord) :
    (n.append id r).Unstarted := by
  refine ⟨h.idle, fun other p hp => ?_, h.told⟩
  have hp' : (n.onPartition (fun p => p.append r) id).partitions.get? other = some p := hp
  rw [get?_onPartition] at hp'
  by_cases hother : other = id
  · rw [if_pos hother] at hp'
    obtain rfl := Option.some.inj hp'
    exact h.partition_processor id
  · rw [if_neg hother] at hp'
    exact h.fresh other p hp'

theorem partition_onPartition_ne {other : PartitionId} (h : other ≠ id) :
    (n.onPartition f id).partition other = n.partition other := by
  have hsame : (n.onPartition f id).setup = n.setup := rfl
  apply partition_congr hsame
  rw [get?_onPartition, if_neg h]

/-- Each of the partitions is changed, and no other one. -/
theorem get?_foldl_onPartition {ids : List PartitionId} (hnodup : ids.Nodup) (id : PartitionId) :
    (ids.foldl (onPartition f) n).partitions.get? id =
      if id ∈ ids then some (f (n.partition id)) else n.partitions.get? id := by
  induction ids generalizing n with
  | nil => rfl
  | cons first ids ih =>
    obtain ⟨hfirst, hrest⟩ := List.nodup_cons.mp hnodup
    rw [List.foldl_cons, ih hrest]
    by_cases hid : id = first
    · subst hid
      rw [if_neg hfirst, get?_onPartition, if_pos rfl, if_pos List.mem_cons_self]
    · by_cases hmem : id ∈ ids
      · rw [if_pos hmem, partition_onPartition_ne hid, if_pos (List.mem_cons_of_mem first hmem)]
      · have hmem' : id ∉ first :: ids := by simp [hid, hmem]
        rw [if_neg hmem, get?_onPartition, if_neg hid, if_neg hmem']

/-- What taking over partitions and processing them leaves behind. -/
theorem get?_own_work {ids : List PartitionId} (hnodup : ids.Nodup) (limit : Nat)
    (id : PartitionId) :
    ((n.own ids).work limit ids).partitions.get? id =
      if id ∈ ids then some (n.engine.drain limit (n.engine.recover (n.partition id)).2).2
      else n.partitions.get? id := by
  show (ids.foldl (onPartition fun p => ((n.own ids).engine.drain limit p).2)
    (n.own ids)).partitions.get? id = _
  have hengine : (n.own ids).engine = n.engine := foldl_onPartition_engine _ n ids
  have hown : (n.own ids).partitions.get? id =
      if id ∈ ids then some (n.engine.recover (n.partition id)).2 else n.partitions.get? id :=
    get?_foldl_onPartition hnodup id
  rw [get?_foldl_onPartition hnodup, hengine]
  by_cases hmem : id ∈ ids
  · rw [if_pos hmem] at hown
    rw [if_pos hmem, if_pos hmem, partition_of_get? hown]
  · rw [if_neg hmem] at hown
    rw [if_neg hmem, if_neg hmem, hown]

end Node

/-! ## Runs of a node -/

/-- A node that was told to run, with the workers that it has spawned. -/
structure NodeRun where
  node : Node Node.Script
  /-- The partitions that it has found to own. -/
  owned : List PartitionId := []
  /-- Those of them whose worker is not spawned yet. -/
  unspawned : List PartitionId := []
  workers : SortedMap PartitionId Activity := .empty
  /-- Whether the workers were told to stop. -/
  signalled : Bool := false

namespace NodeRun

/-- The run after a step of a worker. -/
def update (h : NodeRun) (id : PartitionId) (w : Worker) : NodeRun :=
  { h with
    node := h.node.onPartition (fun _ => w.partition) id
    workers := h.workers.insert id w.toActivity }

/-- The run once the query for the partitions has ended. A node that was told to
    stop and owns nothing ends at once. -/
def resolved (h : NodeRun) (owned : List PartitionId) : NodeRun :=
  { h with
    node := { h.node with
      phase := if owned = [] ∧ h.node.stoppedAt.isSome then .ended else .running owned }
    owned
    unspawned := owned }

/-- The steps of a node and of its workers. Nobody else appends to the logs. -/
inductive Step : NodeRun → NodeRun → Prop where
  /-- Time passes. -/
  | pass {h : NodeRun} : Step h { h with node := { h.node with clock := h.node.clock + 1 } }
  /-- The node is told to stop. -/
  | stop {h : NodeRun} : Step h { h with node := h.node.shutdown }
  /-- A node that was told to stop before does not ask for its partitions. -/
  | decline {h : NodeRun} : h.node.phase = .idle → h.node.stoppedAt.isSome = true →
      Step h { h with node := { h.node with phase := .ended } }
  /-- The node begins to ask for its partitions. -/
  | ask {h : NodeRun} : h.node.phase = .idle → h.node.stoppedAt = none →
      Step h { h with node := h.node.start }
  /-- The query for the partitions ends. -/
  | resolve {h : NodeRun} {since : Nat} {result : QueryResult} :
      h.node.phase = .discovering since →
      h.node.Resolves since h.node.stoppedAt result → result.endedAt ≤ h.node.clock →
      Step h (h.resolved (h.node.ownedOf result))
  /-- A worker is spawned. A notification of earlier records may be stored for it. -/
  | spawn {h : NodeRun} {id : PartitionId} {rest : List PartitionId} (permit : Bool) :
      h.unspawned = id :: rest →
      Step h { h.update id ⟨{ permit }, (h.node.partition id).restart⟩ with unspawned := rest }
  /-- A worker takes a step. -/
  | work {h : NodeRun} {id : PartitionId} {a : Activity} {w : Worker} :
      h.workers.get? id = some a → Worker.Acts h.node.engine ⟨a, h.node.partition id⟩ w →
      Step h (h.update id w)
  /-- The node tells its workers to stop. -/
  | signal {h : NodeRun} {ids : List PartitionId} : h.node.phase = .running ids →
      h.unspawned = [] →
      Step h { h with workers := h.workers.mapValues fun a => a.signal true, signalled := true }
  /-- All workers have stopped, and so does the node. -/
  | finish {h : NodeRun} {ids : List PartitionId} : h.node.phase = .running ids →
      h.unspawned = [] → h.signalled = true →
      (∀ id a, h.workers.get? id = some a → a.phase = .stopped) →
      Step h { h with node := { h.node with phase := .ended } }

/-- Any number of steps in any order. -/
abbrev Steps : NodeRun → NodeRun → Prop := Relation.ReflTransGen Step

/-- The node knows its partitions, and no worker has anything to do. -/
structure Idle (h : NodeRun) : Prop where
  resolved : h.node.phase.isResolved = true
  spawned : h.unspawned = []
  idle : ∀ id a, h.workers.get? id = some a → a.phase.isIdle = true

/-- No partition is owned yet, and no answer has come in that makes one owned. -/
structure Unresolved (h : NodeRun) : Prop where
  none : h.owned = []
  unanswered : ∀ since result, h.node.phase = .discovering since →
    h.node.Resolves since h.node.stoppedAt result → result.endedAt ≤ h.node.clock →
    h.node.ownedOf result = []

variable {n : Node Node.Script} {h h' : NodeRun} {id : PartitionId}

theorem isResolved_resolved (h : NodeRun) (owned : List PartitionId) :
    (h.resolved owned).node.phase.isResolved = true := by
  show (if _ then NodePhase.ended else .running owned).isResolved = true
  split
  · rfl
  · rfl

@[simp] theorem update_workers (h : NodeRun) (id : PartitionId) (w : Worker)
    (other : PartitionId) : (h.update id w).workers.get? other =
      if other = id then some w.toActivity else h.workers.get? other :=
  SortedMap.get?_insert h.workers id other _

@[simp] theorem update_partitions (h : NodeRun) (id : PartitionId) (w : Worker)
    (other : PartitionId) : (h.update id w).node.partitions.get? other =
      if other = id then some w.partition else h.node.partitions.get? other :=
  Node.get?_onPartition _ h.node id other

/-! ### How the partitions were found -/

/-- A node keeps its setup, and what it owns is what a query for the partitions
    has found. -/
structure Discovered (n : Node Node.Script) (h : NodeRun) : Prop where
  setup : h.node.setup = n.setup
  told : ∀ moment, h.node.stoppedAt = some moment → moment ≤ h.node.clock
  owned : h.node.phase.isResolved = true →
    ∃ since cancelAt result, n.Resolves since cancelAt result ∧ h.owned = n.ownedOf result
  nothing : h.node.phase.isResolved = false → h.owned = []

theorem Discovered.step (hd : Discovered n h) (hstep : Step h h') : Discovered n h' := by
  cases hstep with
  | pass =>
    exact ⟨hd.setup, fun moment hmoment => Nat.le_succ_of_le (hd.told moment hmoment), hd.owned,
      hd.nothing⟩
  | stop =>
    refine ⟨hd.setup, fun moment hmoment => ?_, hd.owned, hd.nothing⟩
    have hshutdown : h.node.stoppedAt.or (some h.node.clock) = some moment := hmoment
    show moment ≤ h.node.clock
    cases hstopped : h.node.stoppedAt with
    | none =>
      rw [hstopped] at hshutdown
      exact Nat.le_of_eq (Option.some.inj hshutdown).symm
    | some first =>
      rw [hstopped] at hshutdown
      obtain rfl : first = moment := Option.some.inj hshutdown
      exact hd.told first hstopped
  | decline hidle htold =>
    obtain ⟨moment, hmoment⟩ := Option.isSome_iff_exists.mp htold
    refine ⟨hd.setup, hd.told, fun _ => ?_, fun hopen => Bool.noConfusion hopen⟩
    -- The query is cancelled before the first request.
    refine ⟨h.node.clock, some moment, ⟨none, 0, h.node.clock⟩, ⟨[], .heldBack ?_⟩, ?_⟩
    · simpa [QueryPlan.cancelledBy, QueryPlan.cancelledBefore] using
        Nat.lt_succ_of_le (hd.told moment hmoment)
    · exact hd.nothing (by rw [hidle]; rfl)
  | ask hidle htold =>
    have hstart : h.node.start = { h.node with phase := .discovering h.node.clock } := by
      unfold Node.start
      rw [hidle]
    rw [hstart]
    exact ⟨hd.setup, hd.told, fun hresolved => absurd hresolved Bool.false_ne_true,
      fun _ => hd.nothing (by rw [hidle]; rfl)⟩
  | @resolve since result hphase hresolves hended =>
    rw [Node.resolves_congr hd.setup] at hresolves
    rw [Node.ownedOf_congr hd.setup]
    refine ⟨hd.setup, hd.told, fun _ => ⟨since, _, result, hresolves, rfl⟩, fun hopen => ?_⟩
    rw [isResolved_resolved] at hopen
    cases hopen
  | spawn permit hunspawned => exact ⟨hd.setup, hd.told, hd.owned, hd.nothing⟩
  | work hget hact => exact ⟨hd.setup, hd.told, hd.owned, hd.nothing⟩
  | signal => exact ⟨hd.setup, hd.told, hd.owned, hd.nothing⟩
  | finish hrunning =>
    exact ⟨hd.setup, hd.told, fun _ => hd.owned (by rw [hrunning]; rfl),
      fun hopen => Bool.noConfusion hopen⟩

/-! ### What the workers do -/

/-- Each worker moves its own partition, where it follows one processor, and
    nobody moves a partition without a worker. -/
structure Confined (n : Node Node.Script) (h : NodeRun) : Prop where
  owned : ∀ id, id ∈ h.owned ↔ id ∈ h.unspawned ∨ (h.workers.get? id).isSome = true
  unspawned : ∀ id ∈ h.unspawned, h.workers.get? id = none
  nodup : h.unspawned.Nodup
  untouched : ∀ id, h.workers.get? id = none →
    h.node.partitions.get? id = n.partitions.get? id
  follows : ∀ id a, h.workers.get? id = some a →
    ∃ p, h.node.partitions.get? id = some p ∧
      Worker.Follows n.engine (n.partition id) a.phase p
  ended : h.node.phase = .ended →
    h.unspawned = [] ∧ ∀ id a, h.workers.get? id = some a → a.phase = .stopped

namespace Confined

/-- What is not about partitions and workers does not matter. -/
theorem of_same (hc : Confined n h) {node : Node Node.Script} {signalled : Bool}
    (hpartitions : node.partitions = h.node.partitions)
    (hended : node.phase = .ended →
      h.unspawned = [] ∧ ∀ id a, h.workers.get? id = some a → a.phase = .stopped) :
    Confined n { h with node, signalled } := by
  refine ⟨hc.owned, hc.unspawned, hc.nodup, fun id hnone => ?_, fun id a ha => ?_, hended⟩
  · show node.partitions.get? id = _
    rw [hpartitions]
    exact hc.untouched id hnone
  · show ∃ p, node.partitions.get? id = some p ∧ _
    rw [hpartitions]
    exact hc.follows id a ha

/-- A node that owns nothing has no workers. -/
theorem no_workers (hc : Confined n h) (hnone : h.owned = []) :
    h.unspawned = [] ∧ ∀ id, h.workers.get? id = none := by
  have hnobody : ∀ id, ¬ (id ∈ h.unspawned ∨ (h.workers.get? id).isSome = true) := by
    intro id hid
    have hmem := (hc.owned id).mpr hid
    rw [hnone] at hmem
    cases hmem
  refine ⟨List.eq_nil_iff_forall_not_mem.mpr fun id hid => hnobody id (.inl hid), fun id => ?_⟩
  rw [← Option.not_isSome_iff_eq_none]
  exact fun hsome => hnobody id (.inr hsome)

/-- When the query ends, there is nothing but the logs. -/
theorem resolve (hc : Confined n h) (hnone : h.owned = []) {owned : List PartitionId}
    (hnodup : owned.Nodup) : Confined n (h.resolved owned) := by
  have hworkers := (hc.no_workers hnone).2
  have hnobody : ∀ id a, h.workers.get? id ≠ some a := by
    intro id a ha
    rw [hworkers id] at ha
    cases ha
  refine ⟨fun id => ?_, fun id _ => hworkers id, hnodup, hc.untouched,
    fun id a ha => absurd ha (hnobody id a),
    fun hended => ⟨?_, fun id a ha => absurd ha (hnobody id a)⟩⟩
  · show id ∈ owned ↔ id ∈ owned ∨ (h.workers.get? id).isSome = true
    rw [hworkers id]
    simp
  · by_contra hsome
    have hrunning : (if owned = [] ∧ h.node.stoppedAt.isSome then NodePhase.ended
        else .running owned) = .ended := hended
    rw [if_neg fun hboth => hsome hboth.1] at hrunning
    cases hrunning

section Update

variable {w : Worker}

/-- A step of a worker does not reach the partitions without workers. -/
theorem untouched_update (hc : Confined n h) {other : PartitionId}
    (hnone : (h.update id w).workers.get? other = none) :
    (h.update id w).node.partitions.get? other = n.partitions.get? other := by
  rw [update_workers] at hnone
  rw [update_partitions]
  by_cases hother : other = id
  · rw [if_pos hother] at hnone
    cases hnone
  · rw [if_neg hother] at hnone
    rw [if_neg hother, hc.untouched other hnone]

/-- Nor does it reach those of the other workers. -/
theorem follows_update (hc : Confined n h)
    (hw : Worker.Follows n.engine (n.partition id) w.phase w.partition) {other : PartitionId}
    {a : Activity} (ha : (h.update id w).workers.get? other = some a) :
    ∃ p, (h.update id w).node.partitions.get? other = some p ∧
      Worker.Follows n.engine (n.partition other) a.phase p := by
  rw [update_workers] at ha
  rw [update_partitions]
  by_cases hother : other = id
  · subst hother
    rw [if_pos rfl] at ha ⊢
    obtain rfl := Option.some.inj ha
    exact ⟨w.partition, rfl, hw⟩
  · rw [if_neg hother] at ha ⊢
    exact hc.follows other a ha

end Update

/-- A new worker starts where its partition is. -/
theorem spawn (hc : Confined n h) (hn : n.Unstarted) (hsetup : h.node.setup = n.setup)
    {rest : List PartitionId} {permit : Bool} (hunspawned : h.unspawned = id :: rest) :
    Confined n
      { h.update id ⟨{ permit }, (h.node.partition id).restart⟩ with unspawned := rest } := by
  have hnodup := hc.nodup
  rw [hunspawned] at hnodup
  obtain ⟨hid, hrest⟩ := List.nodup_cons.mp hnodup
  have hnone : h.workers.get? id = none :=
    hc.unspawned id (by rw [hunspawned]; exact List.mem_cons_self)
  have hstart :
      Worker.Follows n.engine (n.partition id) .starting (h.node.partition id).restart := by
    show (h.node.partition id).restart = n.partition id
    rw [Node.partition_congr hsetup (hc.untouched id hnone), hn.restart_partition]
  refine ⟨fun other => ?_, fun other hother => ?_, hrest, fun other => hc.untouched_update,
    fun other a => hc.follows_update hstart, fun hended => ?_⟩
  · show other ∈ h.owned ↔
      other ∈ rest ∨ ((h.update id _).workers.get? other).isSome = true
    rw [hc.owned other, hunspawned, update_workers]
    by_cases heq : other = id
    · subst heq
      simp
    · simp [heq]
  · show (h.update id _).workers.get? other = none
    have hne : other ≠ id := fun heq => hid (heq ▸ hother)
    rw [update_workers, if_neg hne]
    exact hc.unspawned other (by rw [hunspawned]; exact List.mem_cons_of_mem id hother)
  · have hempty := (hc.ended hended).1
    rw [hunspawned] at hempty
    cases hempty

/-- A worker goes on where it is. -/
theorem work (hc : Confined n h) (hsetup : h.node.setup = n.setup) {a : Activity} {w : Worker}
    (ha : h.workers.get? id = some a)
    (hact : Worker.Acts h.node.engine ⟨a, h.node.partition id⟩ w) :
    Confined n (h.update id w) := by
  have hengine : h.node.engine = n.engine := congrArg (fun t => t.2.2.1) hsetup
  rw [hengine] at hact
  have hw : Worker.Follows n.engine (n.partition id) w.phase w.partition := by
    obtain ⟨p, hp, hfollows⟩ := hc.follows id a ha
    rw [Node.partition_of_get? hp] at hact
    exact Worker.Follows.act (w := ⟨a, p⟩) hfollows hact
  refine ⟨fun other => ?_, fun other hother => ?_, hc.nodup, fun other => hc.untouched_update,
    fun other a => hc.follows_update hw, fun hended => ?_⟩
  · show other ∈ h.owned ↔ other ∈ h.unspawned ∨ _
    rw [hc.owned other, update_workers]
    by_cases heq : other = id
    · subst heq
      simp [ha]
    · simp [heq]
  · have hne : other ≠ id := by
      rintro rfl
      rw [hc.unspawned other hother] at ha
      cases ha
    rw [update_workers, if_neg hne]
    exact hc.unspawned other hother
  · have hstopped := (hc.ended hended).2 id a ha
    exact absurd hact (Worker.not_acts_of_stopped hstopped)

theorem signal (hc : Confined n h) (hrunning : h.node.phase ≠ .ended) :
    Confined n
      { h with workers := h.workers.mapValues fun a => a.signal true, signalled := true } := by
  refine ⟨fun id => ?_, fun id hid => ?_, hc.nodup, fun id hnone => ?_, fun id a ha => ?_,
    fun hended => absurd hended hrunning⟩
  · show id ∈ h.owned ↔ id ∈ h.unspawned ∨ _
    rw [hc.owned id, SortedMap.get?_mapValues, Option.isSome_map]
  · show (h.workers.mapValues _).get? id = none
    rw [SortedMap.get?_mapValues, hc.unspawned id hid, Option.map_none]
  · apply hc.untouched id
    rw [SortedMap.get?_mapValues, Option.map_eq_none_iff] at hnone
    exact hnone
  · rw [SortedMap.get?_mapValues, Option.map_eq_some_iff] at ha
    obtain ⟨b, hb, rfl⟩ := ha
    exact hc.follows id b hb

theorem step (hc : Confined n h) (hn : n.Unstarted) (hd : Discovered n h) (hstep : Step h h') :
    Confined n h' := by
  cases hstep with
  | pass => exact hc.of_same rfl hc.ended
  | stop => exact hc.of_same rfl hc.ended
  | decline hidle =>
    obtain ⟨hspawned, hworkers⟩ := hc.no_workers (hd.nothing (by rw [hidle]; rfl))
    refine hc.of_same rfl fun _ => ⟨hspawned, fun id a ha => ?_⟩
    rw [hworkers id] at ha
    cases ha
  | ask hidle =>
    have hstart : h.node.start = { h.node with phase := .discovering h.node.clock } := by
      unfold Node.start
      rw [hidle]
    rw [hstart]
    exact hc.of_same rfl nofun
  | resolve hphase hresolves =>
    exact hc.resolve (hd.nothing (by rw [hphase]; rfl)) hresolves.nodup
  | spawn permit hunspawned => exact hc.spawn hn hd.setup hunspawned
  | work hget hact => exact hc.work hd.setup hget hact
  | signal hrunning => exact hc.signal (by rw [hrunning]; nofun)
  | finish hrunning hspawned _ hstopped => exact hc.of_same rfl fun _ => ⟨hspawned, hstopped⟩

end Confined

/-- Both hold all along a run. -/
theorem discovered_confined (hn : n.Unstarted) (hrun : Steps { node := n } h) :
    Discovered n h ∧ Confined n h := by
  induction hrun with
  | refl =>
    have hopen : n.phase.isResolved = false := by rw [hn.idle]; rfl
    constructor
    · refine ⟨rfl, hn.told, fun hresolved => ?_, fun _ => rfl⟩
      have hresolved' : n.phase.isResolved = true := hresolved
      rw [hopen] at hresolved'
      cases hresolved'
    · exact {
        owned := by simp
        unspawned := fun id _ => rfl
        nodup := List.nodup_nil
        untouched := fun id _ => rfl
        follows := nofun
        ended := fun _ => ⟨rfl, nofun⟩ }
  | tail _ hstep ih => exact ⟨ih.1.step hstep, ih.2.step hn ih.1 hstep⟩

end NodeRun

end WorkflowEngine
