import WorkflowEngine.State.Store

/-! # The Journal Undoes a Transaction

    Every operation of the store notes how to undo what it does. So whatever
    is done after a transaction was opened, rolling it back restores the
    tokens and instances of the moment when it was opened.

    The invariant is `Store.Noted`: two stores that are linked by noted changes
    roll back to the same contents.
-/

namespace WorkflowEngine

/-! ## Overwriting -/

namespace SortedMap

variable {κ : Type u} {β : Type v} [LT κ] [LE κ] [Std.IsLinearOrder κ] [Std.LawfulOrderLT κ]
  [DecidableLT κ] [DecidableEq κ]

@[simp] theorem set_set (m : SortedMap κ β) (k : κ) (u v : Option β) :
    (m.set k u).set k v = m.set k v := by
  apply ext_get?
  intro j
  simp only [get?_set]
  split <;> rfl

@[simp] theorem set_get? (m : SortedMap κ β) (k : κ) : m.set k (m.get? k) = m := by
  apply ext_get?
  intro j
  rw [get?_set]
  split
  · subst j; rfl
  · rfl

end SortedMap

namespace Contents

@[simp] theorem setTokens_setTokens (c : Contents) (scope : Key) (ts us : List Token) :
    (c.setTokens scope ts).setTokens scope us = c.setTokens scope us := by
  simp [setTokens]

@[simp] theorem setInstance_setInstance (c : Contents) (key : Key) (i j : Option ElementInstance) :
    (c.setInstance key i).setInstance key j = c.setInstance key j := by
  simp [setInstance]

@[simp] theorem setInstance_instance? (c : Contents) (key : Key) :
    c.setInstance key (c.instance? key) = c := by
  simp [setInstance, instance?]

end Contents

namespace Store

/-! ## What a rollback restores -/

/-- The contents that undoing the noted changes leads back to. -/
def restored (s : Store) : Contents := (s.journal.getD []).foldl Contents.undo s.contents

theorem rollback_eq (s : Store) : s.rollback = ⟨s.restored, none⟩ := rfl

@[simp] theorem restored_begin (s : Store) : s.begin.restored = s.contents := rfl

theorem restored_of_closed {s : Store} (h : s.inTransaction = false) : s.restored = s.contents := by
  have hj : s.journal = none := by simpa [inTransaction] using h
  simp [restored, hj]

/-- What lies between two stores was noted: both are in a transaction or
    neither is, and in a transaction both roll back to the same contents. -/
structure Noted (s t : Store) : Prop where
  /-- No transaction is opened or closed. -/
  open_iff : t.inTransaction = s.inTransaction
  /-- Undoing the changes leads back to the same contents. -/
  restored : s.inTransaction = true → t.restored = s.restored

theorem Noted.refl (s : Store) : Noted s s := ⟨rfl, fun _ => rfl⟩

theorem Noted.trans {s t u : Store} (h : Noted s t) (h' : Noted t u) : Noted s u := by
  refine ⟨h'.open_iff.trans h.open_iff, ?_⟩
  intro hs
  rw [h'.restored (h.open_iff.trans hs), h.restored hs]

/-- A change is noted if its undo entry leads back. -/
theorem noted_change (s : Store) {c : Contents} {u : Undo} (h : c.undo u = s.contents) :
    Noted s (s.change c u) := by
  obtain ⟨contents, journal⟩ := s
  cases journal with
  | none => exact ⟨rfl, by simp [inTransaction]⟩
  | some us =>
    refine ⟨rfl, fun _ => ?_⟩
    have hc : c.undo u = contents := h
    simp [Store.restored, change, hc]

/-! ## Every operation is noted -/

theorem noted_deferToken (s : Store) (scope : Key) (token : Token) :
    Noted s (s.deferToken scope token) := by
  apply noted_change
  simp [Contents.undo]

theorem noted_consumeToken (s : Store) (scope : Key) : Noted s (s.consumeToken scope).2 := by
  unfold consumeToken
  split
  · exact .refl s
  · rename_i token rest htokens
    apply noted_change
    simp [Contents.undo, ← htokens]

theorem noted_removeTokens (s : Store) (scope : Key) : Noted s (s.removeTokens scope).2 := by
  unfold removeTokens
  split
  · exact .refl s
  · apply noted_change
    simp [Contents.undo]

theorem noted_setInstance (s : Store) (key : Key) (i : Option ElementInstance) :
    Noted s (s.setInstance key i) := by
  apply noted_change
  simp [Contents.undo]

theorem noted_addInstance (s : Store) (key : Key) (value : RecordValue) (intent : Intent) :
    Noted s (s.addInstance key value intent).2 :=
  noted_setInstance s key _

theorem noted_setIntent (s : Store) (key : Key) (intent : Intent) :
    Noted s (s.setIntent key intent).2 := by
  unfold setIntent
  split
  · exact .refl s
  · exact noted_setInstance s key _

theorem noted_removeInstance (s : Store) (key : Key) : Noted s (s.removeInstance key).2 := by
  have htokens := noted_removeTokens s key
  unfold removeInstance
  simp only
  split
  · exact htokens
  · exact htokens.trans (noted_setInstance _ key none)

theorem noted_removeNested (n : Nat) (stack : List Key) (s : Store) :
    Noted s (removeNested n stack s).2 := by
  induction n generalizing stack s with
  | zero => exact .refl s
  | succ n ih =>
    cases stack with
    | nil => exact .refl s
    | cons key stack =>
      have hkey := noted_removeInstance s key
      unfold removeNested
      split
      · rename_i t ht
        rw [ht] at hkey
        exact hkey.trans (ih stack t)
      · rename_i i t ht
        rw [ht] at hkey
        exact hkey.trans (ih _ t)

theorem noted_removeTree (s : Store) (key : Key) : Noted s (s.removeTree key).2 :=
  (noted_removeInstance s key).trans (noted_removeNested _ _ _)

/-- Rolling back what was noted since a transaction was opened restores the
    contents of that moment. -/
theorem Noted.rollback_begin {s t : Store} (h : Noted s.begin t) :
    t.rollback = ⟨s.contents, none⟩ := by
  rw [rollback_eq, h.restored rfl, restored_begin]

end Store

end WorkflowEngine
