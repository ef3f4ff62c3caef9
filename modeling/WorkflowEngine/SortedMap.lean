/-! # Sorted Maps

    Finite maps kept as association lists in strictly ascending key order.

    The order makes the representation canonical: two maps with the same
    contents are equal (`SortedMap.ext_get?`), and listing a map shows its
    entries by key.
-/

namespace WorkflowEngine

/-- A finite map as its entries in strictly ascending key order. -/
structure SortedMap (κ : Type u) (β : Type v) [LT κ] where
  /-- The entries, ascending by key. -/
  entries : List (κ × β)
  /-- Keys ascend strictly, so no key occurs twice. -/
  sorted : entries.Pairwise (fun a b => a.1 < b.1)
  deriving DecidableEq

namespace SortedMap

variable {κ : Type u} {β : Type v}

/-! ## Lists of entries -/

section Lookup

variable [DecidableEq κ]

/-- The value that a list of entries gives a key. -/
def lookup (k : κ) : List (κ × β) → Option β
  | [] => none
  | (k', v) :: rest => if k = k' then some v else lookup k rest

theorem lookup_eq_none {k : κ} {l : List (κ × β)} (h : ∀ e ∈ l, k ≠ e.1) :
    lookup k l = none := by
  induction l with
  | nil => rfl
  | cons hd tl ih =>
    rw [lookup, if_neg (h hd List.mem_cons_self)]
    exact ih fun e he => h e (List.mem_cons_of_mem _ he)

theorem lookup_filter_ne (k j : κ) (l : List (κ × β)) :
    lookup j (l.filter (fun e => e.1 ≠ k)) = if j = k then none else lookup j l := by
  induction l with
  | nil => simp [lookup]
  | cons hd tl ih =>
    by_cases hk : hd.1 = k
    -- The head is filtered out.
    · rw [List.filter_cons_of_neg (by simpa using hk), ih, lookup]
      by_cases hj : j = k
      · rw [if_pos hj, if_pos hj]
      · rw [if_neg hj, if_neg hj, if_neg (fun e => hj (e.trans hk))]
    -- The head stays, and `k` is looked up behind it.
    · rw [List.filter_cons_of_pos (by simpa using hk), lookup, ih, lookup]
      by_cases hj : j = hd.1
      · rw [if_pos hj, if_pos hj, if_neg (fun e => hk (hj.symm.trans e))]
      · rw [if_neg hj, if_neg hj]

theorem lookup_map {γ : Type w} (f : β → γ) (k : κ) (l : List (κ × β)) :
    lookup k (l.map fun e => (e.1, f e.2)) = (lookup k l).map f := by
  induction l with
  | nil => rfl
  | cons hd tl ih =>
    rw [List.map_cons, lookup, lookup, ih]
    split <;> rfl

end Lookup

section InsertEntry

variable [LT κ] [DecidableLT κ] [DecidableEq κ]

/-- Put an entry at its place in an ascending list, replacing one of the same key. -/
def insertEntry (k : κ) (v : β) : List (κ × β) → List (κ × β)
  | [] => [(k, v)]
  | (k', v') :: rest =>
    if k < k' then (k, v) :: (k', v') :: rest
    else if k = k' then (k, v) :: rest
    else (k', v') :: insertEntry k v rest

theorem mem_insertEntry {k : κ} {v : β} {e : κ × β} {l : List (κ × β)}
    (h : e ∈ insertEntry k v l) : e = (k, v) ∨ e ∈ l := by
  induction l with
  | nil => exact Or.inl (List.mem_singleton.mp h)
  | cons hd tl ih =>
    unfold insertEntry at h
    split at h
    · exact List.mem_cons.mp h
    · split at h
      · exact (List.mem_cons.mp h).imp_right (List.mem_cons_of_mem _)
      · rcases List.mem_cons.mp h with rfl | h
        · exact Or.inr List.mem_cons_self
        · exact (ih h).imp_right (List.mem_cons_of_mem _)

theorem lookup_insertEntry (k j : κ) (v : β) (l : List (κ × β)) :
    lookup j (insertEntry k v l) = if j = k then some v else lookup j l := by
  induction l with
  | nil => rfl
  | cons hd tl ih =>
    unfold insertEntry
    split
    · rfl
    · split
      · rename_i heq
        subst heq
        simp only [lookup]
        split <;> rfl
      · rename_i hne
        simp only [lookup, ih]
        by_cases hj : j = hd.1
        · have : j ≠ k := fun e => hne (e ▸ hj)
          rw [if_pos hj, if_neg this, if_pos hj]
        · rw [if_neg hj, if_neg hj]

end InsertEntry

section Ordered

variable [LT κ] [LE κ] [Std.IsLinearOrder κ] [Std.LawfulOrderLT κ]

theorem insertEntry_sorted [DecidableLT κ] [DecidableEq κ] (k : κ) (v : β)
    {l : List (κ × β)} (h : l.Pairwise (fun a b => a.1 < b.1)) :
    (insertEntry k v l).Pairwise (fun a b => a.1 < b.1) := by
  induction l with
  | nil => exact List.pairwise_singleton _ _
  | cons hd tl ih =>
    have hd_lt : ∀ e ∈ tl, hd.1 < e.1 := fun e he => List.rel_of_pairwise_cons h he
    unfold insertEntry
    split
    -- The entry goes in front of the head.
    · rename_i hlt
      refine List.pairwise_cons.mpr ⟨fun e he => ?_, h⟩
      rcases List.mem_cons.mp he with rfl | he
      · exact hlt
      · exact Std.lt_trans hlt (hd_lt e he)
    · split
      -- The entry replaces the head.
      · rename_i heq
        subst heq
        exact List.pairwise_cons.mpr ⟨fun e he => hd_lt e he, h.of_cons⟩
      -- The entry goes somewhere behind the head.
      · rename_i hlt hne
        refine List.pairwise_cons.mpr ⟨fun e he => ?_, ih h.of_cons⟩
        rcases mem_insertEntry he with rfl | he
        · rcases Std.lt_trichotomy hd.1 k with hk | hk | hk
          · exact hk
          · exact absurd hk.symm hne
          · exact absurd hk hlt
        · exact hd_lt e he

theorem entries_eq_of_lookup [DecidableEq κ] {l₁ l₂ : List (κ × β)}
    (h₁ : l₁.Pairwise (fun a b => a.1 < b.1)) (h₂ : l₂.Pairwise (fun a b => a.1 < b.1))
    (h : ∀ k, lookup k l₁ = lookup k l₂) : l₁ = l₂ := by
  -- A key below all keys of a list has no value in it.
  have above {k : κ} {l : List (κ × β)} (hl : ∀ e ∈ l, k < e.1) : lookup k l = none :=
    lookup_eq_none fun e he heq => Std.lt_irrefl (heq ▸ hl e he)
  induction l₁ generalizing l₂ with
  | nil =>
    cases l₂ with
    | nil => rfl
    | cons b t => have := h b.1; simp [lookup] at this
  | cons a s ih =>
    cases l₂ with
    | nil => have := h a.1; simp [lookup] at this
    | cons b t =>
      have ha : ∀ e ∈ s, a.1 < e.1 := fun e he => List.rel_of_pairwise_cons h₁ he
      have hb : ∀ e ∈ t, b.1 < e.1 := fun e he => List.rel_of_pairwise_cons h₂ he
      -- Of two different first keys the smaller one would have a value in one list only.
      have hkey : a.1 = b.1 := by
        rcases Std.lt_trichotomy a.1 b.1 with hlt | heq | hgt
        · have := h a.1
          have hne : a.1 ≠ b.1 := fun e => Std.lt_irrefl (e ▸ hlt)
          rw [lookup, if_pos rfl, lookup, if_neg hne,
            above fun e he => Std.lt_trans hlt (hb e he)] at this
          cases this
        · exact heq
        · have := h b.1
          have hne : b.1 ≠ a.1 := fun e => Std.lt_irrefl (e ▸ hgt)
          rw [lookup, if_neg hne, above fun e he => Std.lt_trans hgt (ha e he), lookup,
            if_pos rfl] at this
          cases this
      have hval : a.2 = b.2 := by
        have := h a.1
        rw [lookup, if_pos rfl, lookup, if_pos hkey] at this
        exact Option.some.inj this
      -- Behind equal heads the tails agree: the head's key has no value in either.
      have htail : s = t := ih h₁.of_cons h₂.of_cons fun k => by
        by_cases hk : k = a.1
        · subst hk
          rw [above ha, above (hkey ▸ hb)]
        · have := h k
          rwa [lookup, if_neg hk, lookup, if_neg (hkey ▸ hk)] at this
      rw [Prod.ext hkey hval, htail]

end Ordered

/-! ## Maps -/

section Query

variable [LT κ]

/-- The map without entries. -/
def empty : SortedMap κ β := ⟨[], List.Pairwise.nil⟩

instance : EmptyCollection (SortedMap κ β) := ⟨empty⟩

instance : Inhabited (SortedMap κ β) := ⟨empty⟩

/-- The keys, ascending. -/
def keys (m : SortedMap κ β) : List κ := m.entries.map (·.1)

/-- The values, ascending by key. -/
def values (m : SortedMap κ β) : List β := m.entries.map (·.2)

/-- The number of entries. -/
def size (m : SortedMap κ β) : Nat := m.entries.length

/-- Whether the map has no entries. -/
def isEmpty (m : SortedMap κ β) : Bool := m.entries.isEmpty

variable [DecidableEq κ]

/-- The value stored under a key. -/
def get? (m : SortedMap κ β) (k : κ) : Option β := lookup k m.entries

/-- Whether a key has a value. -/
def contains (m : SortedMap κ β) (k : κ) : Bool := (m.get? k).isSome

/-- Remove a key and its value. -/
def erase (m : SortedMap κ β) (k : κ) : SortedMap κ β :=
  ⟨m.entries.filter (fun e => e.1 ≠ k), m.sorted.filter _⟩

@[simp] theorem get?_empty (k : κ) : (empty : SortedMap κ β).get? k = none := rfl

@[simp] theorem get?_erase (m : SortedMap κ β) (k j : κ) :
    (m.erase k).get? j = if j = k then none else m.get? j :=
  lookup_filter_ne k j m.entries

/-- Change every value. -/
def mapValues {γ : Type w} (f : β → γ) (m : SortedMap κ β) : SortedMap κ γ :=
  ⟨m.entries.map fun e => (e.1, f e.2), List.pairwise_map.mpr m.sorted⟩

@[simp] theorem get?_mapValues {γ : Type w} (f : β → γ) (m : SortedMap κ β) (k : κ) :
    (m.mapValues f).get? k = (m.get? k).map f :=
  lookup_map f k m.entries

end Query

section Update

variable [LT κ] [LE κ] [Std.IsLinearOrder κ] [Std.LawfulOrderLT κ] [DecidableLT κ]
  [DecidableEq κ]

/-- Store a value under a key, replacing the value stored before. -/
def insert (m : SortedMap κ β) (k : κ) (v : β) : SortedMap κ β :=
  ⟨insertEntry k v m.entries, insertEntry_sorted k v m.sorted⟩

/-- Store a value under a key, or remove the key when there is none. -/
def set (m : SortedMap κ β) (k : κ) : Option β → SortedMap κ β
  | some v => m.insert k v
  | none => m.erase k

/-- The map that a list of entries builds; of two entries of one key the later counts. -/
def ofList (l : List (κ × β)) : SortedMap κ β :=
  l.foldl (fun m e => m.insert e.1 e.2) empty

@[simp] theorem get?_insert (m : SortedMap κ β) (k j : κ) (v : β) :
    (m.insert k v).get? j = if j = k then some v else m.get? j :=
  lookup_insertEntry k j v m.entries

@[simp] theorem get?_set (m : SortedMap κ β) (k j : κ) (v : Option β) :
    (m.set k v).get? j = if j = k then v else m.get? j := by
  cases v <;> simp [set]

end Update

/-- Maps that answer every look-up alike are equal. -/
theorem ext_get? [LT κ] [LE κ] [Std.IsLinearOrder κ] [Std.LawfulOrderLT κ] [DecidableEq κ]
    {m n : SortedMap κ β} (h : ∀ k, m.get? k = n.get? k) : m = n := by
  cases m; cases n
  congr
  exact entries_eq_of_lookup ‹_› ‹_› h

end SortedMap

end WorkflowEngine
