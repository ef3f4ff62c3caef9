import Mathlib.Data.List.Nodup
import WorkflowEngine.Proofs.Removal

/-! # Sweeping a Scope

    Removing a scope is a loop over a stack of keys: the key on top is taken
    off, the instances directly within it are pushed, and the key is forgotten.
    No bound is on the number of steps, and parent links may form any graph, so
    keys may stand on the stack twice or without an instance. `Store.Sweeps` is
    this loop as it stands; a derivation of it is a run that ends.

    Each law of the loop is shown for any stack, by induction on the run:

    * what was listed is what is gone (`instance?_eq`, `tokensOf_eq`),
    * what was listed lies within a scope of the stack (`within`), and nothing
      that is left does (`childless`),
    * an instance is listed behind the scope that it lies in (`parents_first`).

    ### Main statement

    `removeTree_exact`: for any parent links the loop ends, and it removes
    exactly what lies within the scope.
-/

namespace WorkflowEngine

namespace Contents

variable {c c' : Contents} {key p k : Key} {i : ElementInstance}

/-! ## The instances directly within a scope -/

/-- The keys of the instances directly within a scope, ascending. -/
def childKeys (c : Contents) (p : Key) : List Key := (c.childrenOf p).map (·.key)

theorem Keyed.mem_childKeys (hc : c.Keyed) :
    k ∈ c.childKeys p ↔ ∃ i, c.instance? k = some i ∧ i.parentKey = p := by
  unfold childKeys childrenOf
  constructor
  · intro hk
    obtain ⟨i, hi, rfl⟩ := List.mem_map.mp hk
    obtain ⟨hvalue, hparent⟩ := List.mem_filter.mp hi
    obtain ⟨j, hj⟩ := SortedMap.mem_values.mp hvalue
    obtain rfl : i.key = j := hc j i hj
    exact ⟨i, hj, beq_iff_eq.mp hparent⟩
  · rintro ⟨i, hi, hparent⟩
    have hvalue : i ∈ c.instances.values := SortedMap.mem_values.mpr ⟨k, hi⟩
    refine List.mem_map.mpr ⟨i, List.mem_filter.mpr ⟨hvalue, ?_⟩, hc k i hi⟩
    exact beq_iff_eq.mpr hparent

/-- Tracked under its own key, an instance is listed under it. -/
theorem Keyed.map_values (hc : c.Keyed) : c.instances.values.map (·.key) = c.instances.keys := by
  unfold SortedMap.values SortedMap.keys
  rw [List.map_map]
  refine List.map_congr_left fun entry hentry => ?_
  exact hc entry.1 entry.2 (SortedMap.lookup_of_mem c.instances.sorted hentry)

theorem Keyed.nodup_childKeys (hc : c.Keyed) (p : Key) : (c.childKeys p).Nodup := by
  have hkeys : c.instances.keys.Nodup :=
    List.pairwise_map.mpr (c.instances.sorted.imp fun hlt => Int.ne_of_lt hlt)
  rw [← hc.map_values] at hkeys
  exact hkeys.sublist (List.Sublist.map _ List.filter_sublist)

/-- Without an instance, the others are listed as before. -/
theorem Keyed.childKeys_setInstance (hc : c.Keyed) (key p : Key) :
    (c.setInstance key none).childKeys p = (c.childKeys p).filter (· ≠ key) := by
  have hvalues : (c.setInstance key none).instances.values =
      c.instances.values.filter fun i => i.key ≠ key := by
    show ((c.instances.entries.filter fun entry => entry.1 ≠ key).map (·.2)) = _
    unfold SortedMap.values
    rw [List.filter_map]
    refine congrArg _ (List.filter_congr fun entry hentry => ?_)
    have hkey : entry.2.key = entry.1 :=
      hc entry.1 entry.2 (SortedMap.lookup_of_mem c.instances.sorted hentry)
    simp [hkey]
  unfold childKeys childrenOf
  rw [hvalues, List.filter_filter, List.filter_map, List.filter_filter]
  refine congrArg _ (List.filter_congr fun i _ => ?_)
  simp [Bool.and_comm]

/-- Forgetting an instance leaves fewer of them. -/
theorem instanceCount_lt (hi : c.instance? key = some i) :
    (c.setInstance key none).instanceCount < c.instanceCount := by
  refine List.length_filter_lt_length_iff_exists.mpr ⟨(key, i), SortedMap.mem_of_lookup hi, ?_⟩
  simp

theorem instanceCount_pos (hi : c.instance? key = some i) : 0 < c.instanceCount :=
  List.length_pos_of_mem (SortedMap.mem_of_lookup hi)

/-! ## What lies within a scope -/

theorem Within.trans {x y : Key} (h : c.Within x y) (h' : c.Within y k) : c.Within x k := by
  induction h' with
  | root => exact h
  | child _ hi ih => exact .child ih hi

/-- Among more instances nothing less lies within a scope. -/
theorem Within.mono {root : Key}
    (hsub : ∀ k i, c'.instance? k = some i → c.instance? k = some i)
    (h : c'.Within root k) : c.Within root k := by
  induction h with
  | root => exact .root
  | child _ hi ih => exact .child ih (hsub _ _ hi)

end Contents

namespace Store

variable {s t : Store} {stack : List Key} {removed : List ElementInstance} {key k : Key}

/-! ## The loop -/

/-- A run of the loop from a stack of keys, with the instances that it forgets
    in order, and the store at its end. The instances directly within a key are
    looked up before the key is forgotten, so an instance that is its own parent
    is pushed once more. -/
inductive Sweeps : List Key → Store → List ElementInstance → Store → Prop where
  /-- The stack is empty. -/
  | done {s : Store} : Sweeps [] s [] s
  /-- The key on top is forgotten. The greatest of those within it comes next. -/
  | step {key : Key} {stack : List Key} {s t : Store} {removed : List ElementInstance} :
      Sweeps ((s.contents.childKeys key).reverse ++ stack) (s.removeInstance key).2 removed t →
      Sweeps (key :: stack) s ((s.removeInstance key).1.toList ++ removed) t

/-- The keys of the instances that were removed. -/
def keysOf (removed : List ElementInstance) : List Key := removed.map (·.key)

theorem mem_keysOf : k ∈ keysOf removed ↔ ∃ i ∈ removed, i.key = k := List.mem_map

@[simp] theorem instance?_removeInstance (s : Store) (key k : Key) :
    (s.removeInstance key).2.contents.instance? k =
      if k = key then none else s.contents.instance? k := by
  rw [removeInstance_contents, Contents.instance?_setInstance, Contents.instance?_setTokens]

/-- What is left was tracked before, under another key. -/
theorem ne_of_removeInstance {i : ElementInstance}
    (hi : (s.removeInstance key).2.contents.instance? k = some i) :
    k ≠ key ∧ s.contents.instance? k = some i := by
  rw [instance?_removeInstance] at hi
  split at hi
  · cases hi
  · rename_i hne
    exact ⟨hne, hi⟩

@[simp] theorem tokensOf_removeInstance (s : Store) (key scope : Key) :
    (s.removeInstance key).2.contents.tokensOf scope =
      if scope = key then [] else s.contents.tokensOf scope := by
  rw [removeInstance_contents, Contents.tokensOf_setInstance, Contents.tokensOf_setTokens]

theorem keyed_removeInstance (hs : s.contents.Keyed) (key : Key) :
    (s.removeInstance key).2.contents.Keyed := by
  rw [removeInstance_contents]
  exact Keyed.setInstance_contents hs (by simp)

theorem childKeys_removeInstance (hs : s.contents.Keyed) (key p : Key) :
    (s.removeInstance key).2.contents.childKeys p =
      (s.contents.childKeys p).filter (· ≠ key) := by
  rw [removeInstance_contents]
  exact Contents.Keyed.childKeys_setInstance (c := s.contents.setTokens key []) hs key p

/-- The instance that was tracked under the key is the one that is listed. -/
theorem mem_keysOf_removeInstance (hs : s.contents.Keyed) :
    k ∈ keysOf (s.removeInstance key).1.toList ↔
      k = key ∧ s.contents.instance? key ≠ none := by
  rw [removeInstance_fst, mem_keysOf]
  cases hi : s.contents.instance? key with
  | none => simp
  | some i =>
    have hkey : i.key = key := hs key i hi
    simp [hkey, eq_comm]

/-- With the one from the top in front, those of the rest of a run are listed. -/
theorem mem_keysOf_step (hs : s.contents.Keyed) :
    k ∈ keysOf ((s.removeInstance key).1.toList ++ removed) ↔
      k = key ∧ s.contents.instance? key ≠ none ∨ k ∈ keysOf removed := by
  rw [keysOf, List.map_append, List.mem_append]
  exact or_congr_left (mem_keysOf_removeInstance hs)

/-- Without an instance and tokens, nothing is forgotten. -/
theorem removeInstance_idle (hnone : s.contents.instance? key = none)
    (htokens : s.contents.tokensOf key = []) : s.removeInstance key = (none, s) := by
  unfold removeInstance removeTokens
  rw [htokens]
  simp only [hnone]

namespace Sweeps

/-- The loop has one run. -/
theorem unique {removed' : List ElementInstance} {t' : Store} (h : Sweeps stack s removed t)
    (h' : Sweeps stack s removed' t') : removed' = removed ∧ t' = t := by
  induction h generalizing removed' t' with
  | done =>
    cases h'
    exact ⟨rfl, rfl⟩
  | step _ ih =>
    cases h' with
    | step h' =>
      obtain ⟨rfl, rfl⟩ := ih h'
      exact ⟨rfl, rfl⟩

/-! ## What a run forgets -/

/-- What is listed is gone, and all else is as before. -/
theorem instance?_eq (h : Sweeps stack s removed t) (hs : s.contents.Keyed) (k : Key) :
    t.contents.instance? k = if k ∈ keysOf removed then none else s.contents.instance? k := by
  induction h with
  | done => rfl
  | @step key stack s t removed _ ih =>
    rw [ih (keyed_removeInstance hs key), instance?_removeInstance]
    have hlisted : k ∈ keysOf ((s.removeInstance key).1.toList ++ removed) ↔
        k = key ∧ s.contents.instance? key ≠ none ∨ k ∈ keysOf removed := mem_keysOf_step hs
    by_cases hlater : k ∈ keysOf removed
    · rw [if_pos hlater, if_pos (hlisted.mpr (.inr hlater))]
    · rw [if_neg hlater]
      by_cases hk : k = key
      · -- The key on top is gone, whether it was tracked or not.
        subst hk
        rw [if_pos rfl]
        split
        · rfl
        · rename_i hnot
          by_contra hsome
          exact hnot (hlisted.mpr (.inl ⟨rfl, fun hnone => hsome hnone.symm⟩))
      · rw [if_neg hk, if_neg fun hin => (hlisted.mp hin).elim (fun h => hk h.1) hlater]

theorem keyed (h : Sweeps stack s removed t) (hs : s.contents.Keyed) : t.contents.Keyed := by
  intro k i hi
  rw [h.instance?_eq hs] at hi
  split at hi
  · cases hi
  · exact hs k i hi

/-- What is left was tracked before. -/
theorem instance?_of_some (h : Sweeps stack s removed t) (hs : s.contents.Keyed)
    {i : ElementInstance} (hi : t.contents.instance? k = some i) :
    s.contents.instance? k = some i ∧ k ∉ keysOf removed := by
  rw [h.instance?_eq hs] at hi
  split at hi
  · cases hi
  · rename_i hnot
    exact ⟨hi, hnot⟩

/-- What is listed was tracked under its own key. -/
theorem tracked (h : Sweeps stack s removed t) (hs : s.contents.Keyed) :
    ∀ i ∈ removed, s.contents.instance? i.key = some i := by
  induction h with
  | done =>
    intro i hi
    cases hi
  | @step key stack s t removed _ ih =>
    intro i hi
    rcases List.mem_append.mp hi with hfirst | hlater
    · rw [removeInstance_fst] at hfirst
      have hsome := Option.mem_toList.mp hfirst
      rw [hs key i hsome]
      exact hsome
    · exact (ne_of_removeInstance (ih (keyed_removeInstance hs key) i hlater)).2

/-- Nothing is listed twice. -/
theorem nodup (h : Sweeps stack s removed t) (hs : s.contents.Keyed) : (keysOf removed).Nodup := by
  induction h with
  | done => exact List.nodup_nil
  | @step key stack s t removed hrest ih =>
    have hs' := keyed_removeInstance hs key
    rw [keysOf, List.map_append]
    refine List.nodup_append.mpr ⟨?_, ih hs', ?_⟩
    · cases (s.removeInstance key).1 with
      | none => exact List.nodup_nil
      | some i => exact List.pairwise_singleton _ _
    · -- The key on top is not tracked any more, so it is not listed again.
      intro k hfirst j hlater heq
      obtain ⟨rfl, -⟩ := (mem_keysOf_removeInstance hs).mp hfirst
      obtain ⟨i, hi, hkey⟩ := mem_keysOf.mp hlater
      exact (ne_of_removeInstance (hrest.tracked hs' i hi)).1 (hkey.trans heq.symm)

/-- Nothing on the stack stays tracked. -/
theorem gone (h : Sweeps stack s removed t) (hs : s.contents.Keyed) :
    ∀ k ∈ stack, t.contents.instance? k = none := by
  induction h with
  | done =>
    intro k hk
    cases hk
  | @step key stack s t removed hrest ih =>
    have hs' := keyed_removeInstance hs key
    intro k hk
    rcases List.mem_cons.mp hk with rfl | hk
    · rw [hrest.instance?_eq hs', instance?_removeInstance, if_pos rfl, ite_self]
    · exact ih hs' k (List.mem_append_right _ hk)

/-- Nothing is left directly within what was on the stack or is listed. -/
theorem childless (h : Sweeps stack s removed t) (hs : s.contents.Keyed) {i : ElementInstance}
    (hi : t.contents.instance? k = some i) :
    i.parentKey ∉ stack ∧ i.parentKey ∉ keysOf removed := by
  induction h with
  | done => exact ⟨List.not_mem_nil, List.not_mem_nil⟩
  | @step key stack s t removed hrest ih =>
    have hs' := keyed_removeInstance hs key
    obtain ⟨hstack, hlater⟩ := ih hs' hi
    -- What lies within the key on top was pushed.
    have htop : i.parentKey ≠ key := by
      intro hparent
      obtain ⟨hbefore, -⟩ := hrest.instance?_of_some hs' hi
      have hchild := hs.mem_childKeys.mpr ⟨i, (ne_of_removeInstance hbefore).2, hparent⟩
      have hnone := hrest.gone hs' k (List.mem_append_left _ (List.mem_reverse.mpr hchild))
      rw [hi] at hnone
      cases hnone
    refine ⟨?_, ?_⟩
    · intro hmem
      rcases List.mem_cons.mp hmem with heq | hmem
      · exact htop heq
      · exact hstack (List.mem_append_right _ hmem)
    · intro hmem
      rcases (mem_keysOf_step hs).mp hmem with ⟨heq, -⟩ | hmem
      · exact htop heq
      · exact hlater hmem

/-- What is listed lies within a scope of the stack. -/
theorem within (h : Sweeps stack s removed t) (hs : s.contents.Keyed) :
    ∀ k ∈ keysOf removed, ∃ root ∈ stack, s.contents.Within root k := by
  induction h with
  | done =>
    intro k hk
    cases hk
  | @step key stack s t removed _ ih =>
    intro k hk
    rcases (mem_keysOf_step hs).mp hk with ⟨rfl, -⟩ | hlater
    · exact ⟨k, List.mem_cons_self, .root⟩
    · obtain ⟨root, hroot, hwithin⟩ := ih (keyed_removeInstance hs key) k hlater
      have hwithin : s.contents.Within root k :=
        hwithin.mono fun _ _ hi => (ne_of_removeInstance hi).2
      rcases List.mem_append.mp hroot with hchild | hroot
      · -- A child of the key on top lies within it.
        obtain ⟨i, hi, hparent⟩ := hs.mem_childKeys.mp (List.mem_reverse.mp hchild)
        have hroot : s.contents.Within key root := .child (hparent ▸ .root) hi
        exact ⟨key, List.mem_cons_self, hroot.trans hwithin⟩
      · exact ⟨root, List.mem_cons_of_mem _ hroot, hwithin⟩

/-- The queues of what was on the stack and of what is listed are gone, and all
    others are as before. -/
theorem tokensOf_eq (h : Sweeps stack s removed t) (hs : s.contents.Keyed) (scope : Key) :
    t.contents.tokensOf scope =
      if scope ∈ stack ∨ scope ∈ keysOf removed then [] else s.contents.tokensOf scope := by
  induction h with
  | done => simp [keysOf]
  | @step key stack s t removed hrest ih =>
    have hs' := keyed_removeInstance hs key
    -- What was pushed is listed, but for the key on top itself.
    have hpushed : ∀ k ∈ s.contents.childKeys key, k = key ∨ k ∈ keysOf removed := by
      intro k hchild
      by_contra hnot
      obtain ⟨hne, hunlisted⟩ := not_or.mp hnot
      obtain ⟨i, hi, -⟩ := hs.mem_childKeys.mp hchild
      have hnone := hrest.gone hs' k (List.mem_append_left _ (List.mem_reverse.mpr hchild))
      rw [hrest.instance?_eq hs', if_neg hunlisted, instance?_removeInstance, if_neg hne,
        hi] at hnone
      cases hnone
    rw [ih hs', tokensOf_removeInstance]
    by_cases htop : scope = key
    · rw [if_pos htop, ite_self, if_pos (.inl (htop ▸ List.mem_cons_self))]
    · rw [if_neg htop]
      have hiff :
          scope ∈ (s.contents.childKeys key).reverse ++ stack ∨ scope ∈ keysOf removed ↔
            scope ∈ key :: stack ∨
              scope ∈ keysOf ((s.removeInstance key).1.toList ++ removed) := by
        have hchild : scope ∈ s.contents.childKeys key → scope ∈ keysOf removed :=
          fun hchild => (hpushed scope hchild).resolve_left htop
        rw [mem_keysOf_step hs, List.mem_append, List.mem_reverse, List.mem_cons]
        tauto
      simp only [hiff]

/-- An instance that is listed was on the stack, or it stands behind the
    instance that is its parent. -/
theorem parents_first (h : Sweeps stack s removed t) (hs : s.contents.Keyed)
    {before after : List ElementInstance} {i : ElementInstance}
    (hsplit : removed = before ++ i :: after) :
    i.key ∈ stack ∨ ∀ parent, s.contents.instance? i.parentKey = some parent →
      parent ∈ before := by
  induction h generalizing before with
  | done => exact absurd hsplit.symm (by simp)
  | @step key stack s t removed hrest ih =>
    have hs' := keyed_removeInstance hs key
    -- Behind the key on top an instance was pushed with it, or before.
    have hlater : ∀ before, removed = before ++ i :: after → i.key ∈ key :: stack ∨
        ∀ parent, s.contents.instance? i.parentKey = some parent →
          s.contents.instance? key = some parent ∨ parent ∈ before := by
      intro before hremoved
      obtain ⟨-, hi⟩ := ne_of_removeInstance
        (hrest.tracked hs' i (hremoved ▸ List.mem_append_right _ List.mem_cons_self))
      rcases ih hs' hremoved with hstack | hbehind
      · rcases List.mem_append.mp hstack with hchild | hstack
        · obtain ⟨j, hj, hparent⟩ := hs.mem_childKeys.mp (List.mem_reverse.mp hchild)
          obtain rfl : i = j := Option.some.inj (hi.symm.trans hj)
          exact .inr fun parent hp => .inl (hparent ▸ hp)
        · exact .inl (List.mem_cons_of_mem _ hstack)
      · refine .inr fun parent hp => ?_
        by_cases htop : i.parentKey = key
        · exact .inl (htop ▸ hp)
        · refine .inr (hbehind parent ?_)
          rw [instance?_removeInstance, if_neg htop, hp]
    rw [removeInstance_fst] at hsplit
    cases htop : s.contents.instance? key with
    | none =>
      rw [htop] at hsplit hlater
      refine (hlater before hsplit).imp_right fun hbehind parent hp => ?_
      exact (hbehind parent hp).resolve_left (by simp)
    | some j =>
      rw [htop] at hsplit hlater
      cases before with
      | nil =>
        obtain rfl : j = i := (List.cons.inj hsplit).1
        exact .inl (List.mem_cons.mpr (.inl (hs key j htop)))
      | cons b before =>
        obtain ⟨rfl, hremoved⟩ := List.cons.inj hsplit
        refine (hlater before hremoved).imp_right fun hbehind parent hp => ?_
        rcases hbehind parent hp with hself | hmem
        · exact List.mem_cons.mpr (.inl (Option.some.inj hself).symm)
        · exact List.mem_cons_of_mem _ hmem

/-- What lies within a scope of the stack is listed or was on the stack. -/
theorem mem_of_within (h : Sweeps stack s removed t) (hs : s.contents.Keyed) {root : Key}
    (hroot : root ∈ stack) (hwithin : s.contents.Within root k) :
    k ∈ stack ∨ k ∈ keysOf removed := by
  induction hwithin with
  | root => exact .inl hroot
  | @child k i _ hi ih =>
    by_contra hleft
    have hunlisted : k ∉ keysOf removed := fun hmem => hleft (.inr hmem)
    have hstays : t.contents.instance? k = some i := by
      rw [h.instance?_eq hs, if_neg hunlisted, hi]
    obtain ⟨hstack, hlisted⟩ := h.childless hs hstays
    exact ih.elim hstack hlisted

/-- If it is tracked it is listed. -/
theorem listed_of_within (h : Sweeps stack s removed t) (hs : s.contents.Keyed) {root : Key}
    (hroot : root ∈ stack) {i : ElementInstance} (hi : s.contents.instance? i.key = some i)
    (hwithin : s.contents.Within root i.key) : i ∈ removed := by
  have hlisted : i.key ∈ keysOf removed := by
    by_contra hunlisted
    have hgone := h.gone hs i.key ((h.mem_of_within hs hroot hwithin).resolve_right hunlisted)
    rw [h.instance?_eq hs, if_neg hunlisted, hi] at hgone
    cases hgone
  obtain ⟨j, hj, hkey⟩ := mem_keysOf.mp hlisted
  have htracked := h.tracked hs j hj
  rw [hkey, hi] at htracked
  exact Option.some.inj htracked ▸ hj

/-! ## Stacks put together -/

/-- A stack may be swept from the top in two runs. -/
theorem append {stack' : List Key} {removed' : List ElementInstance} {u : Store}
    (h : Sweeps stack s removed t) (h' : Sweeps stack' t removed' u) :
    Sweeps (stack ++ stack') s (removed ++ removed') u := by
  induction h with
  | done => exact h'
  | step _ ih =>
    have hrest := ih h'
    rw [List.append_assoc] at hrest
    rw [List.append_assoc]
    exact .step hrest

theorem split {stack' : List Key} (h : Sweeps (stack ++ stack') s removed t) :
    ∃ first mid last, Sweeps stack s first mid ∧ Sweeps stack' mid last t ∧
      removed = first ++ last := by
  generalize hwhole : stack ++ stack' = whole at h
  induction h generalizing stack with
  | done =>
    obtain ⟨rfl, rfl⟩ := List.append_eq_nil_iff.mp hwhole
    exact ⟨[], _, [], .done, .done, rfl⟩
  | @step key below s t removed hrest ih =>
    cases stack with
    | nil =>
      obtain rfl : stack' = key :: below := hwhole
      exact ⟨[], s, _, .done, .step hrest, rfl⟩
    | cons top stack =>
      obtain ⟨rfl, rfl⟩ := List.cons.inj hwhole
      obtain ⟨first, mid, last, hfirst, hlast, rfl⟩ := ih (List.append_assoc _ _ _)
      exact ⟨_, mid, last, .step hfirst, hlast, (List.append_assoc _ _ _).symm⟩

/-- Keys without instance, tokens and anything within them change nothing. -/
theorem idle (h : ∀ k ∈ stack, s.contents.instance? k = none ∧ s.contents.tokensOf k = [] ∧
    s.contents.childKeys k = []) : Sweeps stack s [] s := by
  induction stack with
  | nil => exact .done
  | cons key stack ih =>
    obtain ⟨⟨hnone, htokens, hchildren⟩, hstack⟩ := List.forall_mem_cons.mp h
    have hstep : Sweeps (key :: stack) s ((s.removeInstance key).1.toList ++ []) s := by
      refine .step ?_
      rw [hchildren, removeInstance_idle hnone htokens]
      exact ih hstack
    rw [removeInstance_idle hnone htokens] at hstep
    exact hstep

theorem childKeys_eq (h : Sweeps stack s removed t) (hs : s.contents.Keyed) (p : Key) :
    t.contents.childKeys p = (s.contents.childKeys p).filter (· ∉ keysOf removed) := by
  induction h with
  | done => simp [keysOf]
  | @step key stack s t removed _ ih =>
    rw [ih (keyed_removeInstance hs key), childKeys_removeInstance hs, List.filter_filter]
    refine List.filter_congr fun k hk => ?_
    have hlisted : k ∈ keysOf ((s.removeInstance key).1.toList ++ removed) ↔
        k = key ∨ k ∈ keysOf removed := by
      refine (mem_keysOf_step hs).trans (or_congr_left ⟨And.left, fun heq => ⟨heq, ?_⟩⟩)
      obtain ⟨i, hi, -⟩ := hs.mem_childKeys.mp hk
      rw [← heq, hi]
      simp
    simp only [hlisted, not_or, Bool.decide_and, Bool.and_comm]

/-- After a run nothing on the stack has anything left. -/
theorem idle_after (h : Sweeps stack s removed t) (hs : s.contents.Keyed) :
    Sweeps stack t [] t := by
  refine idle fun k hk => ⟨h.gone hs k hk, ?_, ?_⟩
  · rw [h.tokensOf_eq hs, if_pos (.inl hk)]
  · refine List.eq_nil_iff_forall_not_mem.mpr fun j hj => ?_
    obtain ⟨i, hi, hparent⟩ := (h.keyed hs).mem_childKeys.mp hj
    exact (h.childless hs hi).1 (hparent ▸ hk)

/-- An instance that is its own parent is pushed once more, in its place among
    the others. When it is met, the ones below it are pushed a second time. -/
theorem revisit (hs : s.contents.Keyed) {root : Key} (hnone : s.contents.instance? root = none)
    (htokens : s.contents.tokensOf root = []) {low high : List Key}
    (hchildren : s.contents.childKeys root = low ++ high)
    (h : Sweeps (low ++ high).reverse s removed t) :
    Sweeps (low ++ root :: high).reverse s removed t := by
  have hnodup := hs.nodup_childKeys root
  rw [hchildren] at hnodup
  rw [List.reverse_append] at h
  obtain ⟨first, mid, last, hfirst, hlast, rfl⟩ := h.split
  have hmid := hfirst.keyed hs
  -- Above the key lie the children with greater keys, and these are forgotten first.
  have hleft : mid.contents.childKeys root = low := by
    have hlow : ∀ k ∈ low, k ∉ keysOf first := by
      intro k hk hlisted
      obtain ⟨top, htop, hwithin⟩ := hfirst.within hs k hlisted
      have htop := List.mem_reverse.mp htop
      cases hwithin with
      | root => exact (List.nodup_append.mp hnodup).2.2 k hk k htop rfl
      | child hparent hi =>
        obtain ⟨i, hi', hroot⟩ :=
          hs.mem_childKeys.mp (hchildren ▸ List.mem_append_left high hk)
        obtain rfl := Option.some.inj (hi.symm.trans hi')
        rw [hroot] at hparent
        obtain ⟨j, hj, -⟩ := hs.mem_childKeys.mp (hchildren ▸ List.mem_append_right low htop)
        rw [← hparent.eq_root hnone, hnone] at hj
        cases hj
    have hhigh : ∀ k ∈ high, k ∈ keysOf first := by
      intro k hk
      obtain ⟨i, hi, -⟩ := hs.mem_childKeys.mp (hchildren ▸ List.mem_append_right low hk)
      by_contra hunlisted
      have hgone := hfirst.gone hs k (List.mem_reverse.mpr hk)
      rw [hfirst.instance?_eq hs, if_neg hunlisted, hi] at hgone
      cases hgone
    rw [hfirst.childKeys_eq hs, hchildren, List.filter_append,
      List.filter_eq_self.mpr fun k hk => by simpa using hlow k hk,
      List.filter_eq_nil_iff.mpr fun k hk => by simpa using hhigh k hk, List.append_nil]
  have hgone : mid.contents.instance? root = none := by
    rw [hfirst.instance?_eq hs, hnone, ite_self]
  have hempty : mid.contents.tokensOf root = [] := by
    rw [hfirst.tokensOf_eq hs, htokens, ite_self]
  have hagain : Sweeps (root :: low.reverse) mid last t := by
    have hstep : Sweeps (root :: low.reverse) mid
        ((mid.removeInstance root).1.toList ++ (last ++ [])) t := by
      refine .step ?_
      rw [removeInstance_idle hgone hempty, hleft]
      exact hlast.append (hlast.idle_after hmid)
    rwa [removeInstance_idle hgone hempty, List.append_nil] at hstep
  rw [List.reverse_append, List.reverse_cons, List.append_assoc]
  exact hfirst.append hagain

end Sweeps

/-! ## The loop ends -/

theorem removeNested_cons {i : ElementInstance} (n : Nat) (stack : List Key)
    (h : s.removeInstance key = (some i, t)) :
    removeNested (n + 1) (key :: stack) s =
      (i :: (removeNested n ((t.contents.childKeys key).reverse ++ stack) t).1,
        (removeNested n ((t.contents.childKeys key).reverse ++ stack) t).2) := by
  rw [removeNested, h]
  rfl

/-- From a stack of instances whose scopes are gone the bounded loop never runs
    out: each of its steps forgets an instance. -/
theorem sweeps_removeNested (n : Nat) (hs : s.contents.Keyed)
    (hcount : s.contents.instanceCount ≤ n)
    (hnodup : stack.Nodup) (hstack : ∀ k ∈ stack, ∃ i, s.contents.instance? k = some i ∧
      s.contents.instance? i.parentKey = none) :
    Sweeps stack s (removeNested n stack s).1 (removeNested n stack s).2 := by
  induction n generalizing stack s with
  | zero =>
    cases stack with
    | nil => exact .done
    | cons key stack =>
      obtain ⟨i, hi, -⟩ := hstack key List.mem_cons_self
      have hpos := Contents.instanceCount_pos hi
      omega
  | succ n ih =>
    cases stack with
    | nil => exact .done
    | cons key stack =>
      obtain ⟨⟨i, hi, hparent⟩, hstack⟩ := List.forall_mem_cons.mp hstack
      obtain ⟨hfresh, hnodup⟩ := List.nodup_cons.mp hnodup
      obtain ⟨t, ht⟩ : ∃ t, s.removeInstance key = (some i, t) :=
        ⟨_, Prod.ext ((removeInstance_fst s key).trans hi) rfl⟩
      have ht' : t = (s.removeInstance key).2 := by rw [ht]
      have hkeyed : t.contents.Keyed := ht' ▸ keyed_removeInstance hs key
      have hold : ∀ k, k ≠ key → t.contents.instance? k = s.contents.instance? k := by
        intro k hk
        rw [ht', instance?_removeInstance, if_neg hk]
      -- The instance is tracked and its parent is not, so it is not its own parent.
      have hchild : ∀ k ∈ s.contents.childKeys key, k ≠ key := by
        rintro k hk rfl
        obtain ⟨j, hj, hself⟩ := hs.mem_childKeys.mp hk
        obtain rfl : i = j := Option.some.inj (hi.symm.trans hj)
        rw [hself, hi] at hparent
        cases hparent
      have hchildren : t.contents.childKeys key = s.contents.childKeys key := by
        rw [ht', childKeys_removeInstance hs]
        exact List.filter_eq_self.mpr fun k hk => decide_eq_true (hchild k hk)
      have hless : t.contents.instanceCount ≤ n := by
        have hlt := Contents.instanceCount_lt (c := s.contents.setTokens key []) hi
        rw [ht', removeInstance_contents]
        exact Nat.le_of_lt_succ (Nat.lt_of_lt_of_le hlt hcount)
      have hrun : Sweeps ((s.contents.childKeys key).reverse ++ stack) t
          (removeNested n ((s.contents.childKeys key).reverse ++ stack) t).1
          (removeNested n ((s.contents.childKeys key).reverse ++ stack) t).2 := by
        refine ih hkeyed hless ?_ ?_
        · refine List.nodup_append.mpr
            ⟨List.nodup_reverse.mpr (hs.nodup_childKeys key), hnodup, ?_⟩
          -- The parent of a child is tracked, those of the others on the stack are not.
          rintro k hk _ hk' rfl
          obtain ⟨j, hj, hkey⟩ := hs.mem_childKeys.mp (List.mem_reverse.mp hk)
          obtain ⟨j', hj', hnone⟩ := hstack k hk'
          obtain rfl : j = j' := Option.some.inj (hj.symm.trans hj')
          rw [hkey, hi] at hnone
          cases hnone
        · intro k hk
          rcases List.mem_append.mp hk with hk | hk
          · have hk := List.mem_reverse.mp hk
            obtain ⟨j, hj, hkey⟩ := hs.mem_childKeys.mp hk
            refine ⟨j, (hold k (hchild k hk)).trans hj, ?_⟩
            rw [hkey, ht', instance?_removeInstance, if_pos rfl]
          · obtain ⟨j, hj, hnone⟩ := hstack k hk
            have hne : k ≠ key := fun heq => hfresh (heq ▸ hk)
            refine ⟨j, (hold k hne).trans hj, ?_⟩
            rw [ht', instance?_removeInstance]
            split
            · rfl
            · exact hnone
      rw [removeNested_cons n stack ht, hchildren]
      have hstep : Sweeps (key :: stack) s ((s.removeInstance key).1.toList ++ _) _ :=
        .step (ht' ▸ hrun)
      rw [ht] at hstep
      exact hstep

theorem removeTree_eq (s : Store) (root : Key) :
    s.removeTree root =
      ((s.removeInstance root).1.toList ++
          (removeNested (s.removeInstance root).2.contents.instanceCount
            ((s.removeInstance root).2.contents.childKeys root).reverse
            (s.removeInstance root).2).1,
        (removeNested (s.removeInstance root).2.contents.instanceCount
          ((s.removeInstance root).2.contents.childKeys root).reverse
          (s.removeInstance root).2).2) :=
  rfl

/-- **The loop ends**, and removing a scope is what it does. -/
theorem sweeps_removeTree (hs : s.contents.Keyed) (root : Key) :
    Sweeps [root] s (s.removeTree root).1 (s.removeTree root).2 := by
  have hs' := keyed_removeInstance hs root
  have hnone : (s.removeInstance root).2.contents.instance? root = none := by
    rw [instance?_removeInstance, if_pos rfl]
  have htokens : (s.removeInstance root).2.contents.tokensOf root = [] := by
    rw [tokensOf_removeInstance, if_pos rfl]
  -- What lies directly within the scope is swept when the scope is gone.
  have hnested := sweeps_removeNested _ hs' (Nat.le_refl _)
    (List.nodup_reverse.mpr (hs'.nodup_childKeys root)) fun k hk => by
      obtain ⟨i, hi, hparent⟩ := hs'.mem_childKeys.mp (List.mem_reverse.mp hk)
      exact ⟨i, hi, hparent ▸ hnone⟩
  rw [removeTree_eq]
  generalize removeNested _ _ _ = nested at hnested ⊢
  refine .step ?_
  rw [List.append_nil]
  have hothers : ∀ ks : List Key, root ∉ ks → ks.filter (· ≠ root) = ks := by
    intro ks hroot
    refine List.filter_eq_self.mpr fun k hk => decide_eq_true ?_
    rintro rfl
    exact hroot hk
  by_cases hself : root ∈ s.contents.childKeys root
  · -- The scope lies within itself and is met a second time.
    obtain ⟨low, high, hsplit⟩ := List.append_of_mem hself
    have hnodup := hs.nodup_childKeys root
    rw [hsplit] at hnodup
    obtain ⟨-, hhigh, hlow⟩ := List.nodup_append.mp hnodup
    have hchildren : (s.removeInstance root).2.contents.childKeys root = low ++ high := by
      rw [childKeys_removeInstance hs, hsplit, List.filter_append,
        List.filter_cons_of_neg (by simp),
        hothers low fun hmem => hlow root hmem root List.mem_cons_self rfl,
        hothers high (List.nodup_cons.mp hhigh).1]
    rw [hchildren] at hnested
    rw [hsplit]
    exact hnested.revisit hs' hnone htokens hchildren
  · rw [childKeys_removeInstance hs, hothers _ hself] at hnested
    exact hnested

/-- **Removing a scope removes exactly what lies within it**, whatever the parent
    links look like and whether the scope is tracked or not. The loop ends, with
    this result and no other. What it lists are the instances within the scope,
    none of them twice, and each but the scope itself behind the instance that is
    its parent. Their queues and that of the scope are gone, and all other
    instances and queues are as before. -/
theorem removeTree_exact (hs : s.contents.Keyed) (root : Key) :
    (∀ removed t, Sweeps [root] s removed t ↔ (removed, t) = s.removeTree root) ∧
      (∀ i, i ∈ (s.removeTree root).1 ↔
        s.contents.instance? i.key = some i ∧ s.contents.Within root i.key) ∧
      (keysOf (s.removeTree root).1).Nodup ∧
      (∀ before i after, (s.removeTree root).1 = before ++ i :: after → i.key ≠ root →
        ∀ parent, s.contents.instance? i.parentKey = some parent → parent ∈ before) ∧
      (∀ k, (s.removeTree root).2.contents.instance? k =
        if k ∈ keysOf (s.removeTree root).1 then none else s.contents.instance? k) ∧
      ∀ scope, (s.removeTree root).2.contents.tokensOf scope =
        if scope = root ∨ scope ∈ keysOf (s.removeTree root).1 then []
        else s.contents.tokensOf scope := by
  have hrun := sweeps_removeTree hs root
  refine ⟨?_, ?_, hrun.nodup hs, ?_, hrun.instance?_eq hs, ?_⟩
  · intro removed t
    constructor
    · intro h
      obtain ⟨hremoved, ht⟩ := h.unique hrun
      exact Prod.ext hremoved.symm ht.symm
    · intro h
      rw [← h] at hrun
      exact hrun
  · intro i
    constructor
    · intro hi
      obtain ⟨top, htop, hwithin⟩ := hrun.within hs i.key (mem_keysOf.mpr ⟨i, hi, rfl⟩)
      exact ⟨hrun.tracked hs i hi, List.mem_singleton.mp htop ▸ hwithin⟩
    · rintro ⟨hi, hwithin⟩
      exact hrun.listed_of_within hs List.mem_cons_self hi hwithin
  · intro before i after hsplit hne
    exact (hrun.parents_first hs hsplit).resolve_left fun hmem => hne (List.mem_singleton.mp hmem)
  · intro scope
    rw [hrun.tokensOf_eq hs]
    simp only [List.mem_singleton]

/-- An instance that is its own parent with others within it at two levels, two
    instances that are each other's parent, and one whose parent is not tracked;
    tokens wait in three of these scopes. -/
def loops : PartitionState :=
  PartitionState.empty.actAll
    [.addInstance 4 { scopeKey := 4 } .elementActivated,
      .addInstance 1 { scopeKey := 4 } .elementActivated,
      .addInstance 7 { scopeKey := 4 } .elementActivated,
      .addInstance 3 { scopeKey := 7 } .elementActivated,
      .addInstance 5 { scopeKey := 6 } .elementActivated,
      .addInstance 6 { scopeKey := 5 } .elementActivated,
      .addInstance 2 { scopeKey := 9 } .elementActivated,
      .deferToken 3 ⟨10, {}⟩, .deferToken 6 ⟨11, {}⟩, .deferToken 9 ⟨12, {}⟩]

/-- Each of the loops is removed with what lies within it, and nothing else. -/
theorem removeTree_exact_loops :
    loops.contents.Keyed ∧
      keysOf (loops.store.removeTree 4).1 = [4, 7, 3, 1] ∧
      keysOf (loops.store.removeTree 6).1 = [6, 5] ∧
      keysOf (loops.store.removeTree 9).1 = [2] ∧
      (∀ removed t, Sweeps [4] loops.store removed t ↔
        (removed, t) = loops.store.removeTree 4) ∧
      (∀ i, i ∈ (loops.store.removeTree 6).1 ↔
        loops.contents.instance? i.key = some i ∧ loops.contents.Within 6 i.key) ∧
      ∀ scope, (loops.store.removeTree 9).2.contents.tokensOf scope =
        if scope = 9 ∨ scope ∈ [2] then [] else loops.contents.tokensOf scope := by
  have hformed : loops.Formed :=
    .act _ (.act _ (.act _ (.act _ (.act _ (.act _ (.act _ (.act _ (.act _ (.act _ .empty)))))))))
  have hkeyed : loops.contents.Keyed := hformed.keyed.contents
  have huntracked : keysOf (loops.store.removeTree 9).1 = [2] := by decide +kernel
  obtain ⟨hends, -⟩ := removeTree_exact hkeyed 4
  obtain ⟨-, hlisted, -⟩ := removeTree_exact hkeyed 6
  obtain ⟨-, -, -, -, -, htokens⟩ := removeTree_exact hkeyed 9
  rw [huntracked] at htokens
  exact ⟨hkeyed, by decide +kernel, by decide +kernel, huntracked, hends, hlisted, htokens⟩

end Store

end WorkflowEngine
