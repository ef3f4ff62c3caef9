import WorkflowEngine.Proofs.NodeRuns

/-! # Results Do Not Depend on the Schedule

    What a run of a node comes to is what `Node.own` and `Node.work` make of its
    partitions, one after the other, whatever the order of the steps is. From
    everywhere on the way a run may come to rest: the query for the partitions
    ends, the workers are spawned, and each of them goes on until it has nothing
    to do while the others stand still. A node that is told to stop before it
    owns anything touches no log.
-/

namespace WorkflowEngine

namespace NodeRun

variable {n : Node Node.Script} {h h' : NodeRun} {id : PartitionId}

/-! ## Nodes at rest -/

/-- When no worker has anything to do, every owned partition is where a processor
    of its own comes to. -/
theorem Confined.drains (hc : Confined n h) (hidle : h.Idle) (hid : id ∈ h.owned) :
    ∃ count q, Engine.Drains n.engine (n.engine.recover (n.partition id)).2 count q ∧
      h.node.partitions.get? id = some q := by
  rcases (hc.owned id).mp hid with hunspawned | hworker
  · rw [hidle.spawned] at hunspawned
    cases hunspawned
  · obtain ⟨a, ha⟩ := Option.isSome_iff_exists.mp hworker
    obtain ⟨q, hq, hfollows⟩ := hc.follows id a ha
    obtain ⟨count, hdrains⟩ := hfollows.drains (hidle.idle id a ha)
    exact ⟨count, q, hdrains, hq⟩

theorem Confined.get?_of_not_owned (hc : Confined n h) (hid : id ∉ h.owned) :
    h.node.partitions.get? id = n.partitions.get? id := by
  apply hc.untouched
  rw [← Option.not_isSome_iff_eq_none]
  exact fun hworker => hid ((hc.owned id).mpr (.inr hworker))

theorem exists_bound {P : PartitionId → Nat → Prop} {ids : List PartitionId}
    (h : ∀ id ∈ ids, ∃ count, P id count) :
    ∃ least, ∀ id ∈ ids, ∃ count ≤ least, P id count := by
  induction ids with
  | nil => exact ⟨0, nofun⟩
  | cons id ids ih =>
    obtain ⟨count, hcount⟩ := h id List.mem_cons_self
    obtain ⟨least, hleast⟩ := ih fun other hother => h other (List.mem_cons_of_mem id hother)
    refine ⟨max count least, fun other hother => ?_⟩
    rcases List.mem_cons.mp hother with rfl | hrest
    · exact ⟨count, Nat.le_max_left count least, hcount⟩
    · obtain ⟨count', hle, hcount'⟩ := hleast other hrest
      exact ⟨count', Nat.le_trans hle (Nat.le_max_right count least), hcount'⟩

/-- All partitions together are what taking them over and processing them one
    after the other makes of them, if the limit cuts nothing off. -/
theorem Confined.partitions_eq (hc : Confined n h) (hidle : h.Idle) (hnodup : h.owned.Nodup) :
    ∃ least, ∀ limit, least ≤ limit →
      h.node.partitions = ((n.own h.owned).work limit h.owned).partitions := by
  obtain ⟨least, hleast⟩ := exists_bound fun id hid => hc.drains hidle hid
  refine ⟨least, fun limit hlimit => SortedMap.ext_get? fun id => ?_⟩
  rw [Node.get?_own_work hnodup]
  by_cases hid : id ∈ h.owned
  · obtain ⟨count, hcount, q, hdrains, hq⟩ := hleast id hid
    rw [if_pos hid, hq, hdrains.drain_eq (Nat.le_trans hcount hlimit)]
  · rw [if_neg hid, hc.get?_of_not_owned hid]

/-! ## Nodes come to rest -/

theorem steps_pass (h : NodeRun) (ms : Nat) :
    Steps h { h with node := { h.node with clock := h.node.clock + ms } } := by
  induction ms with
  | zero => exact .refl
  | succ ms ih => exact .tail ih .pass

/-- The query for the partitions comes to an end. -/
theorem exists_resolved (h : NodeRun) : ∃ h', Steps h h' ∧ h'.node.phase.isResolved = true := by
  have hdiscovering : ∀ {h : NodeRun} {since : Nat}, h.node.phase = .discovering since →
      ∃ h', Steps h h' ∧ h'.node.phase.isResolved = true := by
    intro h since hphase
    have hquery := h.node.resolves_query since h.node.stoppedAt
    have hresolve := Step.resolve (h := { h with
      node := { h.node with clock := h.node.clock + _ } }) hphase hquery
      (Nat.le_add_left _ h.node.clock)
    exact ⟨_, (steps_pass h _).tail hresolve, isResolved_resolved _ _⟩
  cases hphase : h.node.phase with
  | idle =>
    cases htold : h.node.stoppedAt with
    | some moment => exact ⟨_, .single (.decline hphase (by rw [htold]; rfl)), rfl⟩
    | none =>
      have hstart : h.node.start.phase = .discovering h.node.clock := by
        unfold Node.start
        rw [hphase]
      obtain ⟨h', hrun, hresolved⟩ := hdiscovering (h := { h with node := h.node.start }) hstart
      exact ⟨h', .head (.ask hphase htold) hrun, hresolved⟩
  | discovering since => exact hdiscovering hphase
  | running ids => exact ⟨h, .refl, by rw [hphase]; rfl⟩
  | ended => exact ⟨h, .refl, by rw [hphase]; rfl⟩

/-- All workers are spawned. -/
theorem exists_spawned (h : NodeRun) :
    ∃ h', Steps h h' ∧ h'.unspawned = [] ∧ h'.node.phase = h.node.phase := by
  generalize hunspawned : h.unspawned = ids
  induction ids generalizing h with
  | nil => exact ⟨h, .refl, hunspawned, rfl⟩
  | cons id rest ih =>
    obtain ⟨h', hrun, hspawned, hphase⟩ := ih
      { h.update id ⟨{}, (h.node.partition id).restart⟩ with unspawned := rest } rfl
    exact ⟨h', .head (.spawn false hunspawned) hrun, hspawned, hphase⟩

/-- What the steps of one worker leave alone. -/
structure Alone (id : PartitionId) (h h' : NodeRun) : Prop where
  run : Steps h h'
  owned : h'.owned = h.owned
  unspawned : h'.unspawned = h.unspawned
  phase : h'.node.phase = h.node.phase
  engine : h'.node.engine = h.node.engine
  others : ∀ other, other ≠ id → h'.workers.get? other = h.workers.get? other

/-- The others stand still while a worker goes on. -/
theorem alone_of_works {a : Activity} {w : Worker} (ha : h.workers.get? id = some a)
    (hworks : Worker.Works h.node.engine ⟨a, h.node.partition id⟩ w) :
    ∃ h', Alone id h h' ∧ h'.workers.get? id = some w.toActivity ∧
      h'.node.partition id = w.partition := by
  induction hworks with
  | refl => exact ⟨h, ⟨.refl, rfl, rfl, rfl, rfl, fun _ _ => rfl⟩, ha, rfl⟩
  | @tail w w' _ hact ih =>
    obtain ⟨h', halone, hw, hpartition⟩ := ih
    have hstep : Step h' (h'.update id w') := by
      refine .work hw ?_
      rw [halone.engine, hpartition]
      exact hact
    refine ⟨h'.update id w', ⟨halone.run.tail hstep, halone.owned, halone.unspawned,
      halone.phase, halone.engine, fun other hother => ?_⟩, ?_, ?_⟩
    · rw [update_workers, if_neg hother, halone.others other hother]
    · rw [update_workers, if_pos rfl]
    · apply Node.partition_of_get?
      rw [update_partitions, if_pos rfl]

/-- Each of some workers comes to rest, one after the other. -/
theorem exists_idle_workers (hn : n.Unstarted) (hstd : n.engine.registry = .standard)
    (hrun : Steps { node := n } h) (ids : List PartitionId) :
    ∃ h', Steps h h' ∧ h'.owned = h.owned ∧ h'.unspawned = h.unspawned ∧
      h'.node.phase = h.node.phase ∧
      ∀ id ∈ ids, ∀ a, h'.workers.get? id = some a → a.phase.isIdle = true := by
  induction ids with
  | nil => exact ⟨h, .refl, rfl, rfl, rfl, nofun⟩
  | cons first rest ih =>
    obtain ⟨h₁, hrun₁, howned, hunspawned, hphase, hrest⟩ := ih
    cases hfirst : h₁.workers.get? first with
    | none =>
      refine ⟨h₁, hrun₁, howned, hunspawned, hphase, fun id hid a ha => ?_⟩
      rcases List.mem_cons.mp hid with rfl | hmem
      · rw [hfirst] at ha
        cases ha
      · exact hrest id hmem a ha
    | some a =>
      obtain ⟨hd, hc⟩ := discovered_confined hn (hrun.trans hrun₁)
      have hengine : h₁.node.engine = n.engine := congrArg (fun t => t.2.2.1) hd.setup
      obtain ⟨p, hp, hfollows⟩ := hc.follows first a hfirst
      obtain ⟨w, hworks, hidle⟩ := Worker.works_idle (e := h₁.node.engine)
        (w := ⟨a, h₁.node.partition first⟩) (by rw [hengine, hstd]) fun hdrained => by
          rw [hengine, Node.partition_of_get? hp]
          exact (hfollows.drained hdrained).2
      obtain ⟨h₂, halone, hw, -⟩ := alone_of_works hfirst hworks
      refine ⟨h₂, hrun₁.trans halone.run, halone.owned.trans howned,
        halone.unspawned.trans hunspawned, halone.phase.trans hphase, fun id hid b hb => ?_⟩
      by_cases hsame : id = first
      · subst hsame
        rw [hw] at hb
        obtain rfl := Option.some.inj hb
        exact hidle
      · rw [halone.others id hsame] at hb
        exact hrest id ((List.mem_cons.mp hid).resolve_left hsame) b hb

/-- From everywhere on the way a node may come to rest. -/
theorem exists_idle (hn : n.Unstarted) (hstd : n.engine.registry = .standard)
    (hrun : Steps { node := n } h) : ∃ h', Steps h h' ∧ h'.Idle := by
  obtain ⟨h₁, hrun₁, hresolved⟩ := exists_resolved h
  obtain ⟨h₂, hrun₂, hspawned, hphase₂⟩ := exists_spawned h₁
  have hrun' := (hrun.trans hrun₁).trans hrun₂
  obtain ⟨h₃, hrun₃, howned, hunspawned, hphase₃, hidle⟩ :=
    exists_idle_workers hn hstd hrun' h₂.owned
  obtain ⟨-, hc⟩ := discovered_confined hn (hrun'.trans hrun₃)
  refine ⟨h₃, (hrun₁.trans hrun₂).trans hrun₃, ?_, ?_, fun id a ha => ?_⟩
  · rw [hphase₃, hphase₂, hresolved]
  · rw [hunspawned, hspawned]
  · refine hidle id ?_ a ha
    rw [← howned, hc.owned id, ha]
    exact .inr rfl

/-! ## Nodes that are told to stop early -/

/-- A node that was told to stop, and will own nothing. -/
structure Quiet (n : Node Node.Script) (moment : Nat) (h : NodeRun) : Prop where
  partitions : h.node.partitions = n.partitions
  told : h.node.stoppedAt = some moment
  owned : h.owned = []
  spawned : h.unspawned = []
  workers : ∀ id, h.workers.get? id = none
  unanswered : ∀ since result, h.node.phase = .discovering since →
    h.node.Resolves since (some moment) result → h.node.ownedOf result = []

/-- Whoever has found nothing by the time of the stop finds nothing later. -/
theorem quiet_of_unresolved (hd : Discovered n h) (hc : Confined n h) (hopen : h.Unresolved) :
    ∃ moment, Quiet n moment { h with node := h.node.shutdown } := by
  obtain ⟨hspawned, hworkers⟩ := hc.no_workers hopen.none
  have hpartitions : h.node.partitions = n.partitions :=
    SortedMap.ext_get? fun id => hc.untouched id (hworkers id)
  obtain ⟨moment, hmoment⟩ :
      ∃ moment, h.node.stoppedAt.or (some h.node.clock) = some moment := by
    cases h.node.stoppedAt with
    | none => exact ⟨h.node.clock, rfl⟩
    | some first => exact ⟨first, rfl⟩
  refine ⟨moment, hpartitions, hmoment, hopen.none, hspawned, hworkers, ?_⟩
  intro since result hphase hresolves
  show h.node.ownedOf result = []
  cases hids : result.retrieved with
  | none => exact Node.ownedOf_of_none hids
  | some ids =>
    obtain ⟨events, hcourse⟩ := hresolves
    have hended := hcourse.endedAt_le_of_found rfl hids
    cases htold : h.node.stoppedAt with
    | none =>
      -- Without the stop the query would have ended the same way, and no later than now.
      rw [htold] at hmoment
      obtain rfl := Option.some.inj hmoment
      refine hopen.unanswered since result hphase ?_ hended
      rw [htold]
      exact ⟨events, hcourse.uncancelled hids⟩
    | some first =>
      rw [htold] at hmoment
      obtain rfl : first = moment := Option.some.inj hmoment
      refine hopen.unanswered since result hphase ?_ (Nat.le_trans hended (hd.told first htold))
      rw [htold]
      exact ⟨events, hcourse⟩

namespace Quiet

variable {moment : Nat}

theorem step (hq : Quiet n moment h) (hstep : Step h h') : Quiet n moment h' := by
  cases hstep with
  | pass =>
    exact ⟨hq.partitions, hq.told, hq.owned, hq.spawned, hq.workers, hq.unanswered⟩
  | stop =>
    refine ⟨hq.partitions, ?_, hq.owned, hq.spawned, hq.workers, hq.unanswered⟩
    show h.node.stoppedAt.or _ = some moment
    rw [hq.told]
    rfl
  | decline => exact ⟨hq.partitions, hq.told, hq.owned, hq.spawned, hq.workers, nofun⟩
  | ask _ htold =>
    rw [hq.told] at htold
    cases htold
  | @resolve since result hphase hresolves =>
    rw [hq.told] at hresolves
    have hnone := hq.unanswered since result hphase hresolves
    refine ⟨hq.partitions, hq.told, hnone, hnone, hq.workers, fun since' result' hphase' => ?_⟩
    have hresolved := isResolved_resolved h (h.node.ownedOf result)
    rw [hphase'] at hresolved
    cases hresolved
  | spawn permit hunspawned =>
    rw [hq.spawned] at hunspawned
    cases hunspawned
  | work ha =>
    rw [hq.workers] at ha
    cases ha
  | signal =>
    refine ⟨hq.partitions, hq.told, hq.owned, hq.spawned, fun id => ?_, hq.unanswered⟩
    show (h.workers.mapValues _).get? id = none
    rw [SortedMap.get?_mapValues, hq.workers, Option.map_none]
  | finish => exact ⟨hq.partitions, hq.told, hq.owned, hq.spawned, hq.workers, nofun⟩

theorem steps (hq : Quiet n moment h) (hrun : Steps h h') : Quiet n moment h' := by
  induction hrun with
  | refl => exact hq
  | tail _ hstep ih => exact ih.step hstep

/-- It comes to its end. -/
theorem exists_ended (hq : Quiet n moment h) : ∃ h', Steps h h' ∧ h'.node.phase = .ended := by
  obtain ⟨h₁, hrun₁, hresolved⟩ := exists_resolved h
  have hq₁ := hq.steps hrun₁
  cases hphase : h₁.node.phase with
  | idle =>
    rw [hphase] at hresolved
    cases hresolved
  | discovering since =>
    rw [hphase] at hresolved
    cases hresolved
  | running ids =>
    -- There is nobody to wait for.
    have hsignal := Step.signal hphase hq₁.spawned
    have hq₂ := hq₁.step hsignal
    have hfinish := Step.finish (h := { h₁ with
      workers := h₁.workers.mapValues fun a => a.signal true, signalled := true })
      hphase hq₁.spawned rfl fun id a ha => by
        rw [hq₂.workers] at ha
        cases ha
    exact ⟨_, (hrun₁.tail hsignal).tail hfinish, rfl⟩
  | ended => exact ⟨h₁, hrun₁, hphase⟩

end Quiet

/-! ## The result of a run -/

/-- A node of a cluster with two partitions that owns the second one. -/
def secondOfTwo : Node Node.Script where
  config := { cluster := { partitions := { partitionIds := [2] } } }
  client := fun _ => ⟨some 2, 0⟩
  engine := OrderProcess.engine

theorem secondOfTwo_unstarted : secondOfTwo.Unstarted :=
  Node.unstarted_of_build (b := {
    config := some secondOfTwo.config
    client := some secondOfTwo.client
    repository := OrderProcess.repository }) rfl

end NodeRun

end WorkflowEngine
