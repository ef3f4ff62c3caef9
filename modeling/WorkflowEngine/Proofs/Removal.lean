import WorkflowEngine.Proofs.Histories

/-! # Removing What Lies Within a Scope

    A scope is removed with the instances that lie within it, at any depth, and
    with the tokens of all those scopes. Nothing else goes: `Contents.Prunes`
    says so of the loop that goes down along the parent links, whatever these
    links look like.
-/

namespace WorkflowEngine

namespace Contents

/-- What lies within a scope: the scope itself, and every instance whose parent
    lies within it. -/
inductive Within (c : Contents) (root : Key) : Key → Prop where
  /-- The scope itself, which need not be tracked. -/
  | root : Within c root root
  /-- An instance directly within a scope that lies within it. -/
  | child {k : Key} {i : ElementInstance} :
      Within c root i.parentKey → c.instance? k = some i → Within c root k

/-- Only the scope itself may lie within a scope without being tracked. -/
theorem Within.eq_root {c : Contents} {root k : Key} (h : c.Within root k)
    (hnone : c.instance? k = none) : k = root := by
  cases h with
  | root => rfl
  | child _ hsome =>
    rw [hnone] at hsome
    cases hsome

/-- At most what lies within a scope is gone. -/
structure Prunes (c : Contents) (root : Key) (c' : Contents) : Prop where
  /-- An instance is tracked as before, or it lay within the scope and is gone. -/
  instances : ∀ k, c'.instance? k = c.instance? k ∨ c'.instance? k = none ∧ c.Within root k
  /-- The tokens of a scope wait as before, or they are gone with the scope. -/
  tokens : ∀ s, c'.tokensOf s = c.tokensOf s ∨
    c'.tokensOf s = [] ∧ (s = root ∨ c.instance? s ≠ none ∧ c'.instance? s = none)

namespace Prunes

variable {c c' : Contents} {root : Key}

theorem instance?_of_some (h : Prunes c root c') {k : Key} {i : ElementInstance}
    (hi : c'.instance? k = some i) : c.instance? k = some i := by
  rcases h.instances k with hsame | ⟨hnone, -⟩
  · rw [← hsame, hi]
  · rw [hnone] at hi
    cases hi

/-- Taking away a scope without what lies within it. -/
theorem remove_root (c : Contents) (root : Key) :
    Prunes c root ((c.setTokens root []).setInstance root none) := by
  refine ⟨fun k => ?_, fun s => ?_⟩
  · rw [instance?_setInstance, instance?_setTokens]
    split
    · rename_i hk
      exact .inr ⟨rfl, hk ▸ .root⟩
    · exact .inl rfl
  · rw [tokensOf_setInstance, tokensOf_setTokens]
    split
    · rename_i hs
      exact .inr ⟨rfl, .inl hs⟩
    · exact .inl rfl

/-- Taking away an instance that lay within the scope. -/
theorem remove (h : Prunes c root c') {key : Key} (hkey : c.Within root key)
    (hsome : c.instance? key ≠ none) :
    Prunes c root ((c'.setTokens key []).setInstance key none) := by
  refine ⟨fun k => ?_, fun s => ?_⟩
  · rw [instance?_setInstance, instance?_setTokens]
    split
    · rename_i hk
      exact .inr ⟨rfl, hk ▸ hkey⟩
    · exact h.instances k
  · rw [tokensOf_setInstance, tokensOf_setTokens, instance?_setInstance, instance?_setTokens]
    split
    · rename_i hs
      exact .inr ⟨rfl, .inr ⟨hs ▸ hsome, rfl⟩⟩
    · exact h.tokens s

/-- The instances directly within a scope lie within it. -/
theorem within_of_mem_children (h : Prunes c root c') (hc : c.Keyed) {key child : Key}
    (hkey : c.Within root key) (hchild : child ∈ (c'.childrenOf key).map (·.key)) :
    c.Within root child ∧ c.instance? child ≠ none := by
  obtain ⟨i, hi, rfl⟩ := List.mem_map.mp hchild
  obtain ⟨hvalue, hparent⟩ := List.mem_filter.mp hi
  obtain ⟨k, hk⟩ := SortedMap.mem_values.mp hvalue
  have hold : c.instance? k = some i := h.instance?_of_some hk
  obtain rfl : i.key = k := hc k i hold
  have hwithin : c.Within root i.parentKey := (beq_iff_eq.mp hparent) ▸ hkey
  exact ⟨.child hwithin hold, by simp [hold]⟩

end Prunes

end Contents

namespace Store

variable {c : Contents} {root : Key}

/-- The loop takes away what is on its stack and what lies within that. -/
theorem removeNested_prunes (hc : c.Keyed) (n : Nat) {stack : List Key} {s : Store}
    (hstack : ∀ k ∈ stack, c.Within root k ∧ c.instance? k ≠ none)
    (h : c.Prunes root s.contents) : c.Prunes root (removeNested n stack s).2.contents := by
  induction n generalizing stack s with
  | zero => exact h
  | succ n ih =>
    cases stack with
    | nil => exact h
    | cons key stack =>
      obtain ⟨⟨hkey, hsome⟩, hstack⟩ := List.forall_mem_cons.mp hstack
      have hremoved : c.Prunes root (s.removeInstance key).2.contents := by
        rw [removeInstance_contents]
        exact h.remove hkey hsome
      unfold removeNested
      split
      · rename_i t ht
        rw [ht] at hremoved
        exact ih hstack hremoved
      · rename_i i t ht
        rw [ht] at hremoved
        -- The children of a scope on the stack join the stack.
        refine ih ?_ hremoved
        intro k hk
        rcases List.mem_append.mp hk with hk | hk
        · exact hremoved.within_of_mem_children hc hkey (List.mem_reverse.mp hk)
        · exact hstack k hk

/-- **Removing a scope takes away nothing but what lies within it.** -/
theorem removeTree_prunes {s : Store} (hc : s.contents.Keyed) (root : Key) :
    s.contents.Prunes root (s.removeTree root).2.contents := by
  have hroot : s.contents.Prunes root (s.removeInstance root).2.contents := by
    rw [removeInstance_contents]
    exact .remove_root s.contents root
  unfold removeTree
  refine removeNested_prunes hc _ ?_ hroot
  intro k hk
  exact hroot.within_of_mem_children hc .root (List.mem_reverse.mp hk)

/-! ## What was removed is gone -/

theorem removeInstance_fst (s : Store) (key : Key) :
    (s.removeInstance key).1 = s.contents.instance? key := by
  have htokens : (s.removeTokens key).2.contents.instance? key = s.contents.instance? key := by
    rw [removeTokens_contents, Contents.instance?_setTokens]
  rw [← htokens]
  unfold removeInstance
  simp only
  split
  · rename_i hnone
    exact hnone.symm
  · rename_i i hsome
    exact hsome.symm

theorem removeInstance_untracked {s : Store} {k : Key} (key : Key)
    (h : k = key ∨ s.contents.instance? k = none) :
    (s.removeInstance key).2.contents.instance? k = none := by
  rw [removeInstance_contents, Contents.instance?_setInstance]
  split
  · rfl
  · rename_i hne
    exact h.resolve_left hne

/-- Removing makes nothing tracked that was not. -/
theorem removeNested_untracked (n : Nat) {stack : List Key} {s : Store} {k : Key}
    (h : s.contents.instance? k = none) :
    (removeNested n stack s).2.contents.instance? k = none := by
  induction n generalizing stack s with
  | zero => exact h
  | succ n ih =>
    cases stack with
    | nil => exact h
    | cons key stack =>
      have hremoved := removeInstance_untracked key (.inr h)
      unfold removeNested
      split
      · rename_i t ht
        rw [ht] at hremoved
        exact ih hremoved
      · rename_i i t ht
        rw [ht] at hremoved
        exact ih hremoved

/-- The loop leaves none of the instances tracked that it lists. -/
theorem removeNested_removed {s : Store} (hs : s.Keyed) (n : Nat) {stack : List Key} :
    ∀ i ∈ (removeNested n stack s).1,
      (removeNested n stack s).2.contents.instance? i.key = none := by
  induction n generalizing stack s with
  | zero =>
    intro i hi
    cases hi
  | succ n ih =>
    cases stack with
    | nil =>
      intro i hi
      cases hi
    | cons key stack =>
      have hkeyed := hs.removeInstance key
      have hfound := s.removeInstance_fst key
      have hgone : (s.removeInstance key).2.contents.instance? key = none :=
        removeInstance_untracked key (.inl rfl)
      unfold removeNested
      split
      · rename_i t ht
        rw [ht] at hkeyed
        exact ih hkeyed
      · rename_i j t ht
        rw [ht] at hkeyed hfound hgone
        intro i hi
        rcases List.mem_cons.mp hi with rfl | hi
        · -- The first one listed is the one on the stack, and it stays gone.
          have hkey : i.key = key := hs.contents key i hfound.symm
          rw [hkey]
          exact removeNested_untracked n hgone
        · exact ih hkeyed i hi

/-- **The scope and all instances removed with it are gone.** -/
theorem removeTree_removed {s : Store} (hs : s.Keyed) {key k : Key}
    (hk : k = key ∨ ∃ i ∈ (s.removeTree key).1, i.key = k) :
    (s.removeTree key).2.contents.instance? k = none := by
  have hgone : (s.removeInstance key).2.contents.instance? key = none :=
    removeInstance_untracked key (.inl rfl)
  have hfound := s.removeInstance_fst key
  unfold removeTree at hk ⊢
  rcases hk with rfl | ⟨i, hi, rfl⟩
  · exact removeNested_untracked _ hgone
  · rcases List.mem_append.mp hi with hroot | hnested
    · rw [hfound] at hroot
      have hkey : i.key = key := hs.contents key i (Option.mem_toList.mp hroot)
      rw [hkey]
      exact removeNested_untracked _ hgone
    · exact removeNested_removed (hs.removeInstance key) _ i hnested

end Store

end WorkflowEngine
