import WorkflowEngine.Proofs.Outcomes
import WorkflowEngine.Proofs.Removal

/-! # Workflow Instances Are Isolated

    The handlers trust the keys that a record carries, and removing a scope
    follows the parent links of what is tracked. So a record touches no workflow
    instance but its own if

    * the parent links stay within workflow instances (`WellScoped`), and
    * what the record names belongs to its workflow instance (`Addresses`).

    Both are conditions on the state before the record; the first one holds
    again after it.
-/

namespace WorkflowEngine

namespace Contents

/-! ## Ownership -/

/-- Every instance belongs to the workflow instance of its parent, if the parent
    is tracked. -/
def WellScoped (c : Contents) : Prop :=
  ∀ k i parent, c.instance? k = some i → c.instance? i.parentKey = some parent →
    i.instanceKey = parent.instanceKey

/-- What a record names belongs to the workflow instance of the record. -/
structure Addresses (c : Contents) (r : Record) : Prop where
  /-- The instance that the record is about. -/
  target : ∀ i, c.instance? r.key = some i → i.instanceKey = r.instanceKey
  /-- The instances directly within it. -/
  children : ∀ k i, c.instance? k = some i → i.parentKey = r.key →
    i.instanceKey = r.instanceKey
  /-- The instance of the enclosing scope. -/
  scope : ∀ i, c.instance? r.value.scopeKey = some i → i.instanceKey = r.instanceKey

section Ownership

variable {c c' : Contents} {r : Record} {k : Key} {i : ElementInstance}

/-- All that lies within the scope of a record belongs to its workflow instance:
    the parent links lead up to the scope without leaving it. -/
theorem instanceKey_of_within (hscoped : c.WellScoped) (haddr : c.Addresses r)
    (h : c.Within r.key k) (hi : c.instance? k = some i) : i.instanceKey = r.instanceKey := by
  induction h generalizing i with
  | root => exact haddr.target i hi
  | @child k j hparent hj ih =>
    obtain rfl : j = i := Option.some.inj (hj.symm.trans hi)
    cases hp : c.instance? j.parentKey with
    | some parent =>
      calc j.instanceKey = parent.instanceKey := hscoped k j parent hj hp
        _ = r.instanceKey := ih hp
    | none => exact haddr.children k j hj (hparent.eq_root hp)

/-- Instances that stay are well-scoped as before. -/
theorem WellScoped.of_subset (h : c.WellScoped)
    (hsub : ∀ k i, c'.instance? k = some i → c.instance? k = some i) : c'.WellScoped := by
  intro k i parent hi hparent
  exact h k i parent (hsub k i hi) (hsub _ parent hparent)

/-- An instance of the workflow instance of a record may be tracked under the
    key of the record, within the scope of the record. -/
theorem WellScoped.activate (h : c.WellScoped) (haddr : c.Addresses r)
    (hparent : i.parentKey = r.value.scopeKey) (hinstance : i.instanceKey = r.instanceKey) :
    (c.setInstance r.key (some i)).WellScoped := by
  intro k j parent hj hp
  rw [instance?_setInstance] at hj hp
  by_cases hk : k = r.key
  · -- The new instance belongs to the workflow instance of its parent.
    rw [if_pos hk] at hj
    obtain rfl : i = j := Option.some.inj hj
    by_cases hself : i.parentKey = r.key
    · rw [if_pos hself] at hp
      exact congrArg _ (Option.some.inj hp)
    · rw [if_neg hself, hparent] at hp
      exact hinstance.trans (haddr.scope parent hp).symm
  · rw [if_neg hk] at hj
    by_cases hnew : j.parentKey = r.key
    · -- So do the instances that it becomes the parent of.
      rw [if_pos hnew] at hp
      obtain rfl : i = parent := Option.some.inj hp
      exact (haddr.children k j hj hnew).trans hinstance.symm
    · rw [if_neg hnew] at hp
      exact h k j parent hj hp

end Ownership

/-! ## What a record leaves alone -/

/-- Between these contents, a record has changed no workflow instance but its own. -/
structure Spares (c : Contents) (r : Record) (c' : Contents) : Prop where
  /-- The instances of other workflow instances are the same. -/
  instances : ∀ k i, i.instanceKey ≠ r.instanceKey →
    (c'.instance? k = some i ↔ c.instance? k = some i)
  /-- So are the tokens of all scopes but those of the workflow instance and of
      the record, and those of the instances that were removed. -/
  tokens : ∀ scope, scope ≠ r.instanceKey → scope ≠ r.value.instanceKey →
    scope ≠ r.key →
    ¬(c.instance? scope ≠ none ∧ c'.instance? scope = none) →
      c'.tokensOf scope = c.tokensOf scope
  /-- The parent links stay within workflow instances. -/
  wellScoped : c'.WellScoped

namespace Spares

variable {c c' : Contents} {r : Record}

theorem refl (hscoped : c.WellScoped) : c.Spares r c :=
  ⟨fun _ _ _ => Iff.rfl, fun _ _ _ _ _ => rfl, hscoped⟩

/-- The tokens of the workflow instance of a record may change. -/
theorem setTokens (h : c.Spares r c') {scope : Key}
    (hscope : scope = r.instanceKey ∨ scope = r.value.instanceKey) (ts : List Token) :
    c.Spares r (c'.setTokens scope ts) := by
  refine ⟨h.instances, ?_, h.wellScoped⟩
  intro other hinstance hvalue hkey hremoved
  have hother : other ≠ scope := by
    rintro rfl
    rcases hscope with heq | heq
    · exact hinstance heq
    · exact hvalue heq
  rw [tokensOf_setTokens, if_neg hother]
  exact h.tokens other hinstance hvalue hkey hremoved

/-- A record may track an instance of its workflow instance. -/
theorem activate (hscoped : c.WellScoped) (haddr : c.Addresses r) {i : ElementInstance}
    (hparent : i.parentKey = r.value.scopeKey) (hinstance : i.instanceKey = r.instanceKey) :
    c.Spares r (c.setInstance r.key (some i)) := by
  refine ⟨?_, fun scope _ _ _ _ => rfl, hscoped.activate haddr hparent hinstance⟩
  intro k j hj
  rw [instance?_setInstance]
  by_cases hk : k = r.key
  · -- Neither the new instance nor the one it replaces is of another workflow instance.
    rw [if_pos hk]
    constructor
    · intro heq
      exact absurd (Option.some.inj heq ▸ hinstance) hj
    · intro hold
      exact absurd (haddr.target j (hk ▸ hold)) hj
  · rw [if_neg hk]

/-- A record may remove what lies within its scope. -/
theorem of_prunes (hscoped : c.WellScoped) (haddr : c.Addresses r) (h : c.Prunes r.key c') :
    c.Spares r c' := by
  have hsub : ∀ k i, c'.instance? k = some i → c.instance? k = some i :=
    fun k i hi => h.instance?_of_some hi
  refine ⟨?_, ?_, hscoped.of_subset hsub⟩
  · intro k i hi
    constructor
    · exact hsub k i
    · intro hold
      rcases h.instances k with hsame | ⟨-, hwithin⟩
      · exact hsame.trans hold
      · exact absurd (instanceKey_of_within hscoped haddr hwithin hold) hi
  · intro scope _ _ hkey hremoved
    rcases h.tokens scope with hsame | ⟨-, hroot | hgone⟩
    · exact hsame
    · exact absurd hroot hkey
    · exact absurd hgone hremoved

end Spares

end Contents

namespace Engine

variable {e : Engine} {c c' : Contents} {r : Record} {out : Option PendingRecord}

/-- Whatever processing a record changes belongs to its workflow instance. -/
theorem Effect.spares (h : Effect e c r c' out) (hkeyed : c.Keyed) (hscoped : c.WellScoped)
    (haddr : c.Addresses r) : c.Spares r c' := by
  have hrefl : c.Spares r c := .refl hscoped
  cases h with
  | occurred => exact hrefl.setTokens (.inl rfl) _
  | activating => exact .activate hscoped haddr rfl rfl
  | untracked => exact hrefl
  | startedAtOnce => exact hrefl
  | startedByToken => exact hrefl.setTokens (.inr rfl) _
  | triggering => exact hrefl
  | terminating =>
    have hprunes : c.Prunes r.key (Store.removeTree ⟨c, some []⟩ r.key).2.contents :=
      Store.removeTree_prunes (s := ⟨c, some []⟩) hkeyed r.key
    have hnested : c.Spares r (Store.removeTree ⟨c, some []⟩ r.key).2.contents :=
      .of_prunes hscoped haddr hprunes
    unfold Contents.terminate
    simp only
    split
    · exact hnested
    · exact hnested.setTokens (.inr rfl) []

end Engine

/-- Between these states, a record has changed no workflow instance but its own,
    and has stopped at most the one it names. -/
structure PartitionState.Spares (s : PartitionState) (r : Record) (s' : PartitionState) : Prop where
  /-- The instances and tokens. -/
  contents : s.contents.Spares r s'.contents
  /-- The stopped workflow instances. -/
  blacklist :
    s'.blacklist = s.blacklist ∨ s'.blacklist = s.blacklist.insert r.value.instanceKey ()

namespace PartitionState

variable {s : PartitionState} {r : Record}

theorem Spares.refl (hscoped : s.contents.WellScoped) : s.Spares r s :=
  ⟨.refl hscoped, .inl rfl⟩

theorem Spares.addToBlacklist (hscoped : s.contents.WellScoped) :
    s.Spares r (s.addToBlacklist r.value.instanceKey) := by
  unfold PartitionState.addToBlacklist
  split
  · exact .refl hscoped
  · exact ⟨.refl hscoped, .inr rfl⟩

end PartitionState

namespace Engine

variable {e : Engine} {s : PartitionState} {r : Record}

theorem Outcome.spares {o : Handling × PartitionState × List PendingRecord} (h : Outcome e s r o)
    (hkeyed : s.contents.Keyed) (hscoped : s.contents.WellScoped) (haddr : s.contents.Addresses r) :
    s.Spares r o.2.1 := by
  cases h with
  | blacklisted => exact .refl hscoped
  | noHandler => exact .refl hscoped
  | failed => exact .addToBlacklist hscoped
  | processed _ heffect => exact ⟨heffect.spares hkeyed hscoped haddr, .inl rfl⟩

/-- **Workflow instances are isolated**: a record that is addressed well, in a
    state whose parent links stay within workflow instances, changes no other
    workflow instance, whatever is deployed and however its handling ends, when
    it is processed and when it is replayed. -/
theorem workflow_instances_isolated (hstd : e.registry = .standard) (hformed : s.Formed)
    (hclosed : s.store.inTransaction = false) (hscoped : s.contents.WellScoped)
    (haddr : s.contents.Addresses r) :
    s.Spares r (e.replay s [r]) ∧
      ∀ p : Partition, p.processor.state = s →
        p.log.read? (p.processor.lastProcessed + 1) = some r →
        ∃ o, e.processNext p = some o ∧ s.Spares r o.2.processor.state := by
  have hspares : s.Spares r (e.handle s r).2.1 :=
    (handle_outcome hstd hclosed r).spares hformed.keyed.contents hscoped haddr
  refine ⟨hspares, ?_⟩
  rintro p rfl hr
  exact ⟨_, processNext_of_read? hr, hspares⟩

/-- The value of the process of an order in the given workflow instance. -/
def processValue (instanceKey : Key) : RecordValue :=
  { OrderProcess.value instanceKey with elementId := "order" }

/-- An order of workflow instance 1 with a process within it, and an order of
    workflow instance 5, each with a token. -/
def nestedOrders : PartitionState :=
  PartitionState.empty.actAll
    [.addInstance 1 (processValue 1) .elementActivated,
      .addInstance 2 { processValue 1 with scopeKey := 1 } .elementActivated,
      .addInstance 5 (processValue 5) .elementActivated,
      .deferToken 1 ⟨1, OrderProcess.value 1⟩, .deferToken 5 ⟨5, OrderProcess.value 5⟩]

/-- The termination of the first order. -/
def orderTermination : Record :=
  (Log.mk 1 [] 1).record ((PendingRecord.external .elementTerminating (processValue 1)).withKey 1)

theorem nestedOrders_formed : nestedOrders.Formed :=
  .act _ (.act _ (.act _ (.act _ (.act _ .empty))))

/-- All that is tracked are the three instances. -/
theorem nestedOrders_instance? (k : Key) :
    nestedOrders.contents.instance? k =
      if k = 5 then some ⟨5, -1, 5, "order", .elementActivated⟩
      else if k = 2 then some ⟨2, 1, 1, "order", .elementActivated⟩
      else if k = 1 then some ⟨1, -1, 1, "order", .elementActivated⟩
      else none := by
  have hcontents : nestedOrders.contents.instance? k = (((Contents.empty.setInstance 1
      (some ⟨1, -1, 1, "order", .elementActivated⟩)).setInstance 2
      (some ⟨2, 1, 1, "order", .elementActivated⟩)).setInstance 5
      (some ⟨5, -1, 5, "order", .elementActivated⟩)).instance? k := rfl
  rw [hcontents]
  simp only [Contents.instance?_setInstance]
  rfl

theorem nestedOrders_wellScoped : nestedOrders.contents.WellScoped := by
  intro k i parent hi hparent
  rw [nestedOrders_instance?] at hi hparent
  split_ifs at hi
  · cases hi
    simp at hparent
  · -- The parent of the second process is the first one.
    cases hi
    simp only [Int.reduceEq, if_false, if_true] at hparent
    cases hparent
    rfl
  · cases hi
    simp at hparent

theorem nestedOrders_addresses : nestedOrders.contents.Addresses orderTermination := by
  refine ⟨?_, ?_, ?_⟩
  · intro i hi
    rw [nestedOrders_instance?] at hi
    cases hi
    rfl
  · intro k i hi hparent
    rw [nestedOrders_instance?] at hi
    split_ifs at hi
    · cases hi
      cases hparent
    · cases hi
      rfl
    · cases hi
      rfl
  · intro i hi
    rw [nestedOrders_instance?] at hi
    cases hi

/-- Terminating the first order removes the process within it, and the second
    order is as before. -/
theorem workflow_instances_isolated_orders :
    nestedOrders.Spares orderTermination
      (OrderProcess.engine.replay nestedOrders [orderTermination]) ∧
      (OrderProcess.engine.replay nestedOrders [orderTermination]).contents.instance? 2 = none ∧
      ∃ o, OrderProcess.engine.processNext
          ⟨⟨1, [orderTermination], 6⟩, ⟨nestedOrders, 0⟩⟩ = some o ∧
        nestedOrders.Spares orderTermination o.2.processor.state := by
  obtain ⟨hreplayed, hprocessed⟩ := workflow_instances_isolated (e := OrderProcess.engine) rfl
    nestedOrders_formed rfl nestedOrders_wellScoped nestedOrders_addresses
  exact ⟨hreplayed, by decide +kernel, hprocessed _ rfl rfl⟩

end Engine

end WorkflowEngine
