import WorkflowEngine.Proofs.Deployment

/-! # Values Under Their Own Keys

    Elements are stored under their ids and workflows under their keys: every
    value says itself where it is stored. Such a map is determined by its
    values, and a value joins it exactly if its key is not taken.

    `SortedMap.Holds` names the values that are stored, in any order. What a
    map answers is read off this list by `get?_eq_some_iff`, `get?_eq_none_iff`
    and `size_eq`.

    A search through the values does not depend on their order if at most one
    of them is what is searched for (`find?_eq_some_iff_of_unique`,
    `find?_eq_of_perm`).
-/

namespace WorkflowEngine

/-! ## Searches with one answer -/

section Search

variable {α : Type u} {p : α → Bool} {l l' : List α}

theorem find?_eq_some_iff_of_unique
    (h : ∀ a ∈ l, ∀ b ∈ l, p a = true → p b = true → a = b)
    {a : α} : l.find? p = some a ↔ a ∈ l ∧ p a = true := by
  constructor
  · intro hfound
    exact ⟨List.mem_of_find?_eq_some hfound, List.find?_some hfound⟩
  · rintro ⟨ha, hpa⟩
    obtain ⟨b, hb⟩ := Option.isSome_iff_exists.mp (List.find?_isSome.mpr ⟨a, ha, hpa⟩)
    rw [hb, h b (List.mem_of_find?_eq_some hb) a ha (List.find?_some hb) hpa]

theorem find?_eq_of_perm (h : ∀ a ∈ l, ∀ b ∈ l, p a = true → p b = true → a = b)
    (hperm : l'.Perm l) : l'.find? p = l.find? p := by
  have h' : ∀ a ∈ l', ∀ b ∈ l', p a = true → p b = true → a = b := by
    intro a ha b hb
    exact h a (hperm.mem_iff.mp ha) b (hperm.mem_iff.mp hb)
  apply Option.ext
  intro a
  rw [find?_eq_some_iff_of_unique h, find?_eq_some_iff_of_unique h', hperm.mem_iff]

end Search

/-! ## Maps -/

namespace SortedMap

variable {κ : Type u} {β : Type v} [LT κ] [DecidableEq κ]

/-- The map stores exactly the given values, each under its own key. -/
structure Holds (m : SortedMap κ β) (key : β → κ) (vs : List β) : Prop where
  /-- The values in some order. -/
  values : m.values.Perm vs
  /-- A value is stored under its own key. -/
  own : ∀ {k v}, m.get? k = some v → key v = k

variable {m : SortedMap κ β} {key : β → κ} {vs : List β} {k : κ} {v : β}

theorem holds_empty (key : β → κ) : (empty : SortedMap κ β).Holds key [] where
  values := List.Perm.nil
  own := by
    intro k v h
    cases h

theorem Holds.size_eq (h : m.Holds key vs) : m.size = vs.length := by
  rw [← h.values.length_eq]
  exact (List.length_map _).symm

section Ordered

variable [LE κ] [Std.IsLinearOrder κ] [Std.LawfulOrderLT κ]

theorem Holds.get?_eq_some_iff (h : m.Holds key vs) :
    m.get? k = some v ↔ v ∈ vs ∧ key v = k := by
  constructor
  · intro hget
    exact ⟨h.values.mem_iff.mp (mem_values.mpr ⟨k, hget⟩), h.own hget⟩
  · rintro ⟨hmem, rfl⟩
    -- The value stands under some key, which is its own one.
    obtain ⟨k, hk⟩ := mem_values.mp (h.values.mem_iff.mpr hmem)
    rw [h.own hk]
    exact hk

theorem Holds.get?_eq_none_iff (h : m.Holds key vs) : m.get? k = none ↔ k ∉ vs.map key := by
  rw [Option.eq_none_iff_forall_ne_some]
  constructor
  · intro hnone hmem
    obtain ⟨v, hv, hk⟩ := List.mem_map.mp hmem
    exact hnone v (h.get?_eq_some_iff.mpr ⟨hv, hk⟩)
  · intro hfree v hv
    obtain ⟨hmem, rfl⟩ := h.get?_eq_some_iff.mp hv
    exact hfree (List.mem_map_of_mem hmem)

/-- No two values have the same key. -/
theorem Holds.nodup (h : m.Holds key vs) : (vs.map key).Nodup := by
  have hkeys : m.values.map key = m.keys := by
    show (m.entries.map (·.2)).map key = m.entries.map (·.1)
    rw [List.map_map]
    apply List.map_congr_left
    intro e he
    exact h.own (lookup_of_mem m.sorted he)
  rw [← (h.values.map key).nodup_iff, hkeys]
  apply List.Pairwise.map _ _ m.sorted
  intro a b hlt heq
  rw [heq] at hlt
  exact Std.lt_irrefl hlt

end Ordered

theorem insertEntry_perm [DecidableLT κ] {l : List (κ × β)} (h : lookup k l = none) :
    (insertEntry k v l).Perm ((k, v) :: l) := by
  induction l with
  | nil => exact List.Perm.refl _
  | cons hd tl ih =>
    unfold lookup at h
    unfold insertEntry
    by_cases hk : k = hd.1
    · rw [if_pos hk] at h
      cases h
    · rw [if_neg hk] at h
      rw [if_neg hk]
      split
      · exact List.Perm.refl _
      · exact ((ih h).cons hd).trans (List.Perm.swap _ _ _)

/-- A value whose key is not taken joins the others. -/
theorem Holds.insert [LE κ] [Std.IsLinearOrder κ] [Std.LawfulOrderLT κ] [DecidableLT κ]
    (h : m.Holds key vs) (hfree : m.get? (key v) = none) :
    (m.insert (key v) v).Holds key (vs ++ [v]) where
  values := by
    have hentries : (m.insert (key v) v).entries.Perm ((key v, v) :: m.entries) :=
      insertEntry_perm hfree
    have hvalues : (m.insert (key v) v).values.Perm (v :: m.values) := hentries.map Prod.snd
    exact (hvalues.trans (h.values.cons v)).trans (List.perm_append_singleton v vs).symm
  own := by
    intro k x hx
    rw [get?_insert] at hx
    split at hx
    · rename_i heq
      rw [← Option.some.inj hx, heq]
    · exact h.own hx

end SortedMap

end WorkflowEngine
