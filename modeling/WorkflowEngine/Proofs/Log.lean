import Mathlib.Data.List.Forall2
import WorkflowEngine.Log

/-! # What a Log Makes of Pending Records

    Appending never touches what is in the log already. The entries made of a
    list of pending records are a block at its end: they take the next
    positions, keep the keys that are given, and draw the next fresh keys for
    the others.
-/

namespace WorkflowEngine

namespace PendingRecord

@[simp] theorem followUp_intent (i : Intent) (v : RecordValue) (q : Nat) :
    (followUp i v q).intent = i := rfl

@[simp] theorem withKey_intent (p : PendingRecord) (k : Key) :
    (p.withKey k).intent = p.intent := rfl

end PendingRecord

/-- The log took everything over from a pending record; the key too, if it has one. -/
structure PendingRecord.Becomes (p : PendingRecord) (r : Record) : Prop where
  /-- The same transition. -/
  intent : r.intent = p.intent
  /-- The same payload. -/
  value : r.value = p.value
  /-- The same source. -/
  source : r.sourcePosition = p.sourcePosition
  /-- The same key, unless the log was to draw one. -/
  key : ∀ k, p.key = some k → r.key = k

namespace Log

/-! ## Appending -/

@[simp] theorem append_records (l : Log) (p : PendingRecord) :
    (l.append p).records = l.records ++ [l.record p] := rfl

@[simp] theorem append_partitionId (l : Log) (p : PendingRecord) :
    (l.append p).partitionId = l.partitionId := rfl

@[simp] theorem lastPosition_append (l : Log) (p : PendingRecord) :
    (l.append p).lastPosition = l.lastPosition + 1 := by
  simp [lastPosition]

theorem nextKey_le_append (l : Log) (p : PendingRecord) : l.nextKey ≤ (l.append p).nextKey := by
  unfold append
  simp only
  split <;> omega

theorem record_becomes (l : Log) (p : PendingRecord) : p.Becomes (l.record p) := by
  refine ⟨rfl, rfl, rfl, ?_⟩
  intro k hk
  simp [record, hk]

/-- A record with a key keeps it. -/
theorem record_key_of_some (l : Log) {p : PendingRecord} {k : Key} (h : p.key = some k) :
    (l.record p).key = k := (l.record_becomes p).key k h

/-- A record without a key takes the next fresh one. -/
theorem record_key_of_none (l : Log) {p : PendingRecord} (h : p.key = none) :
    (l.record p).key = Key.encode l.partitionId (l.nextKey : Nat) := by
  have hkey : (l.record p).key = p.key.getD (Key.encode l.partitionId (l.nextKey : Nat)) := rfl
  rw [hkey, h]
  exact Option.getD_none

/-- The records that a log makes of pending ones, one after the other. -/
def entries (l : Log) : List PendingRecord → List Record
  | [] => []
  | p :: ps => l.record p :: (l.append p).entries ps

/-- How many of some pending records draw a fresh key. -/
def draws (ps : List PendingRecord) : Nat := ps.countP fun p => p.key.isNone

@[simp] theorem entries_nil (l : Log) : l.entries [] = [] := rfl

/-- A pending record draws a key now or was counted as drawing none. -/
theorem nextKey_append_add_draws (l : Log) (p : PendingRecord) (ps : List PendingRecord) :
    (l.append p).nextKey + draws ps = l.nextKey + draws (p :: ps) := by
  unfold append draws
  cases hk : p.key with
  | none => simp [hk]; omega
  | some k => simp [hk]

@[simp] theorem appendAll_nil (l : Log) : l.appendAll [] = l := rfl

theorem appendAll_cons (l : Log) (p : PendingRecord) (ps : List PendingRecord) :
    l.appendAll (p :: ps) = (l.append p).appendAll ps := rfl

theorem appendAll_append (l : Log) (ps qs : List PendingRecord) :
    l.appendAll (ps ++ qs) = (l.appendAll ps).appendAll qs := List.foldl_append

theorem appendAll_records (l : Log) (ps : List PendingRecord) :
    (l.appendAll ps).records = l.records ++ l.entries ps := by
  induction ps generalizing l with
  | nil => simp [appendAll]
  | cons p ps ih => rw [appendAll_cons, ih]; simp [entries]

@[simp] theorem appendAll_partitionId (l : Log) (ps : List PendingRecord) :
    (l.appendAll ps).partitionId = l.partitionId := by
  induction ps generalizing l with
  | nil => rfl
  | cons p ps ih => rw [appendAll_cons, ih]; rfl

theorem appendAll_nextKey (l : Log) (ps : List PendingRecord) :
    (l.appendAll ps).nextKey = l.nextKey + draws ps := by
  induction ps generalizing l with
  | nil => rfl
  | cons p ps ih => rw [appendAll_cons, ih, nextKey_append_add_draws]

theorem entries_length (l : Log) (ps : List PendingRecord) : (l.entries ps).length = ps.length := by
  induction ps generalizing l with
  | nil => rfl
  | cons p ps ih => simp [entries, ih]

/-- **The entries in closed form**: the `i`-th takes the `i`-th next position, and
    draws its key, if it has none, after those drawn by the ones before it. -/
theorem getElem?_entries (l : Log) (ps : List PendingRecord) (i : Nat) :
    (l.entries ps)[i]? = ps[i]?.map fun p =>
      { position := l.lastPosition + i + 1
        key := p.key.getD (Key.encode l.partitionId (l.nextKey + draws (ps.take i) : Nat))
        partitionId := l.partitionId
        intent := p.intent
        value := p.value
        sourcePosition := p.sourcePosition } := by
  induction ps generalizing l i with
  | nil => simp [entries]
  | cons p ps ih =>
    cases i with
    | zero => simp [entries, record, draws]
    | succ i =>
      have hkey :
          (l.append p).nextKey + draws (ps.take i) = l.nextKey + draws ((p :: ps).take (i + 1)) :=
        nextKey_append_add_draws l p (ps.take i)
      simp only [entries, List.getElem?_cons_succ, ih, hkey, lastPosition_append,
        append_partitionId]
      congr 1
      funext q
      congr 1
      omega

/-- The counter moves on behind a record that draws its key. -/
theorem draws_take_succ {ps : List PendingRecord} {i : Nat} {p : PendingRecord}
    (h : ps[i]? = some p)
    (hkey : p.key = none) : draws (ps.take (i + 1)) = draws (ps.take i) + 1 := by
  rw [List.take_add_one, h]
  simp [draws, hkey]

theorem draws_take_le (ps : List PendingRecord) {i j : Nat} (h : i ≤ j) :
    draws (ps.take i) ≤ draws (ps.take j) :=
  (List.take_sublist_take_left h).countP_le

/-- **The records of a new log in closed form**: the `n`-th one without a key takes the key
    of counter `n`. -/
theorem getElem?_appendAll_new (id : PartitionId) (ps : List PendingRecord) (i : Nat) :
    (({ partitionId := id } : Log).appendAll ps).records[i]? = ps[i]?.map fun p =>
      { position := i + 1
        key := p.key.getD (Key.encode id (draws (ps.take i) + 1 : Nat))
        partitionId := id
        intent := p.intent
        value := p.value
        sourcePosition := p.sourcePosition } := by
  rw [appendAll_records, List.nil_append, getElem?_entries]
  simp [lastPosition, Nat.add_comm]

/-- A record without a key is drawn the key of the number of draws up to it. -/
theorem key_of_draw {id : PartitionId} {ps : List PendingRecord} {i : Nat} {p : PendingRecord}
    {r : Record} (hp : ps[i]? = some p) (hkey : p.key = none)
    (hr : (({ partitionId := id } : Log).appendAll ps).records[i]? = some r) :
    r.key = Key.encode id (draws (ps.take (i + 1)) : Nat) := by
  rw [getElem?_appendAll_new, hp, Option.map_some] at hr
  obtain rfl := Option.some.inj hr
  show p.key.getD _ = _
  rw [hkey, Option.getD_none, draws_take_succ hp hkey]

theorem lastPosition_appendAll (l : Log) (ps : List PendingRecord) :
    (l.appendAll ps).lastPosition = l.lastPosition + ps.length := by
  unfold lastPosition
  rw [appendAll_records, List.length_append, entries_length]

theorem entries_become (l : Log) (ps : List PendingRecord) :
    List.Forall₂ PendingRecord.Becomes ps (l.entries ps) := by
  induction ps generalizing l with
  | nil => exact .nil
  | cons p ps ih => exact .cons (l.record_becomes p) (ih _)

/-! ## Positions -/

/-- Every record has the position of its place, counted from one. -/
def Numbered (l : Log) : Prop := ∀ i r, l.records[i]? = some r → r.position = i + 1

theorem numbered_new (id : PartitionId) : ({ partitionId := id } : Log).Numbered := by
  intro i r h
  cases h

theorem Numbered.append {l : Log} (h : l.Numbered) (p : PendingRecord) : (l.append p).Numbered := by
  intro i r hr
  rw [append_records, List.getElem?_append] at hr
  split at hr
  · exact h i r hr
  · -- The only place behind the old records is the first one.
    rename_i hi
    obtain ⟨hlt, rfl⟩ := List.getElem?_eq_some_iff.mp hr
    simp only [List.length_singleton] at hlt
    simp only [List.getElem_singleton]
    show l.lastPosition + 1 = i + 1
    unfold lastPosition
    omega

theorem Numbered.appendAll {l : Log} (h : l.Numbered) (ps : List PendingRecord) :
    (l.appendAll ps).Numbered := by
  induction ps generalizing l with
  | nil => exact h
  | cons p ps ih => exact ih (h.append p)

theorem read?_succ (l : Log) (n : Nat) : l.read? (n + 1) = l.records[n]? := rfl

theorem exists_read? {l : Log} {q : Nat} (hone : 1 ≤ q) (hq : q ≤ l.lastPosition) :
    ∃ r, l.read? q = some r := by
  cases q with
  | zero => omega
  | succ q => exact ⟨_, List.getElem?_eq_getElem hq⟩

/-- The handled records and the others, when the next one is handled. -/
theorem take_succ_of_read? {l : Log} {n : Nat} {r : Record} (h : l.read? (n + 1) = some r) :
    l.records.take (n + 1) = l.records.take n ++ [r] := by
  rw [read?_succ] at h
  rw [List.take_add_one, h]
  rfl

theorem drop_of_read? {l : Log} {n : Nat} {r : Record} (h : l.read? (n + 1) = some r) :
    l.records.drop n = r :: l.records.drop (n + 1) := by
  obtain ⟨hlt, rfl⟩ := List.getElem?_eq_some_iff.mp h
  exact List.drop_eq_getElem_cons hlt

/-- What is appended comes behind the records that have not been handled. -/
theorem take_appendAll {l : Log} {n : Nat} (h : n ≤ l.lastPosition) (ps : List PendingRecord) :
    (l.appendAll ps).records.take n = l.records.take n := by
  rw [appendAll_records, List.take_append_of_le_length h]

theorem drop_appendAll {l : Log} {n : Nat} (h : n ≤ l.lastPosition) (ps : List PendingRecord) :
    (l.appendAll ps).records.drop n = l.records.drop n ++ l.entries ps := by
  rw [appendAll_records, List.drop_append_of_le_length h]

/-- A record of the old log is read at its position from the longer one as well. -/
theorem read?_appendAll {l : Log} {q : Nat} (h : q ≤ l.lastPosition) (ps : List PendingRecord) :
    (l.appendAll ps).read? q = l.read? q := by
  cases q with
  | zero => rfl
  | succ q =>
    rw [read?_succ, read?_succ, appendAll_records, List.getElem?_append_left h]

theorem Numbered.read?_eq_some_iff {l : Log} (h : l.Numbered) {q : Nat} {r : Record} :
    l.read? q = some r ↔ r ∈ l.records ∧ r.position = q := by
  constructor
  · intro hr
    cases q with
    | zero => simp [read?] at hr
    | succ q =>
      rw [read?_succ] at hr
      exact ⟨List.mem_of_getElem? hr, h q r hr⟩
  · rintro ⟨hr, rfl⟩
    obtain ⟨i, hi⟩ := List.mem_iff_getElem?.mp hr
    rw [h i r hi, read?_succ, hi]

/-- A position names one record. -/
theorem Numbered.eq_of_position {l : Log} (h : l.Numbered) {r s : Record} (hr : r ∈ l.records)
    (hs : s ∈ l.records) (heq : r.position = s.position) : r = s := by
  have hrr := h.read?_eq_some_iff.mpr ⟨hr, heq⟩
  have hss := h.read?_eq_some_iff.mpr ⟨hs, rfl⟩
  exact Option.some.inj (hrr.symm.trans hss)

theorem Numbered.position_le {l : Log} (h : l.Numbered) {r : Record} (hr : r ∈ l.records) :
    1 ≤ r.position ∧ r.position ≤ l.lastPosition := by
  obtain ⟨i, hi⟩ := List.mem_iff_getElem?.mp hr
  have hlt := (List.getElem?_eq_some_iff.mp hi).1
  rw [h i r hi]
  unfold lastPosition
  omega

/-- The first records are those of the first positions. -/
theorem Numbered.mem_take_iff {l : Log} (h : l.Numbered) {n : Nat} {r : Record} :
    r ∈ l.records.take n ↔ r ∈ l.records ∧ r.position ≤ n := by
  constructor
  · intro hr
    obtain ⟨i, hi⟩ := List.mem_iff_getElem?.mp hr
    rw [List.getElem?_take] at hi
    split at hi
    · rename_i hlt
      rw [h i r hi]
      exact ⟨List.mem_of_getElem? hi, hlt⟩
    · cases hi
  · rintro ⟨hr, hn⟩
    obtain ⟨i, hi⟩ := List.mem_iff_getElem?.mp hr
    rw [h i r hi] at hn
    exact List.mem_of_getElem? ((List.getElem?_take_of_lt hn).trans hi)

theorem Numbered.lt_position_of_mem_drop {l : Log} (h : l.Numbered) {n : Nat} {r : Record}
    (hr : r ∈ l.records.drop n) : n < r.position := by
  obtain ⟨i, hi⟩ := List.mem_iff_getElem?.mp hr
  rw [List.getElem?_drop] at hi
  rw [h (n + i) r hi]
  omega

/-- The records behind a position are those with a greater one. -/
theorem Numbered.drop_eq_filter {l : Log} (h : l.Numbered) (n : Nat) :
    l.records.drop n = l.records.filter fun r => n < r.position := by
  have hfront : (l.records.take n).filter (fun r => n < r.position) = [] := by
    refine List.filter_eq_nil_iff.mpr fun r hr => ?_
    have hle := (h.mem_take_iff.mp hr).2
    simpa using hle
  have hback : (l.records.drop n).filter (fun r => n < r.position) = l.records.drop n :=
    List.filter_eq_self.mpr fun r hr => by simpa using h.lt_position_of_mem_drop hr
  conv => rhs; rw [← List.take_append_drop n l.records, List.filter_append, hfront, hback]
  rfl

/-- Reading one position after the other up to the last one. -/
theorem filterMap_read? (l : Log) {n k : Nat} (h : l.lastPosition = n + k) :
    (List.range' (n + 1) k).filterMap l.read? = l.records.drop n := by
  induction k generalizing n with
  | zero => exact (List.drop_eq_nil_of_le (Nat.le_of_eq h)).symm
  | succ k ih =>
    obtain ⟨r, hr⟩ := exists_read? (l := l) (q := n + 1) (by omega) (by omega)
    rw [List.range'_succ, List.filterMap_cons_some hr, ih (by omega), drop_of_read? hr]

theorem isSome_read? (l : Log) (q : Nat) :
    (l.read? q).isSome ↔ 1 ≤ q ∧ q ≤ l.lastPosition := by
  constructor
  · intro h
    obtain ⟨r, hr⟩ := Option.isSome_iff_exists.mp h
    cases q with
    | zero => cases hr
    | succ q => exact ⟨by omega, (List.getElem?_eq_some_iff.mp hr).1⟩
  · rintro ⟨hone, hlast⟩
    obtain ⟨r, hr⟩ := exists_read? hone hlast
    rw [hr]
    rfl

/-! ## Sources -/

/-- The records that were emitted while the given position was handled. -/
def followUps (l : Log) (position : Nat) : List Record :=
  l.records.filter fun r => r.sourcePosition = some position

theorem mem_followUps {l : Log} {q : Nat} {r : Record} :
    r ∈ l.followUps q ↔ r ∈ l.records ∧ r.sourcePosition = some q := by
  simp [followUps]

/-- A record that is appended joins the follow-ups of its source. -/
theorem record_mem_followUps (l : Log) {p : PendingRecord} {q : Nat}
    (h : p.sourcePosition = some q) : l.record p ∈ (l.append p).followUps q := by
  rw [mem_followUps, append_records]
  exact ⟨List.mem_append_right _ (List.mem_singleton.mpr rfl), h⟩

theorem followUps_subset_append {l : Log} {q : Nat} {r : Record} (h : r ∈ l.followUps q)
    (p : PendingRecord) : r ∈ (l.append p).followUps q := by
  obtain ⟨hmem, hsource⟩ := mem_followUps.mp h
  exact mem_followUps.mpr ⟨List.mem_append_left _ hmem, hsource⟩

theorem entries_source {l : Log} {ps : List PendingRecord} {s : Option Nat}
    (h : ∀ p ∈ ps, p.sourcePosition = s) : ∀ r ∈ l.entries ps, r.sourcePosition = s := by
  induction ps generalizing l with
  | nil => simp
  | cons p ps ih =>
    intro r hr
    rcases List.mem_cons.mp hr with rfl | hr
    · exact h p List.mem_cons_self
    · exact ih (fun q hq => h q (List.mem_cons_of_mem _ hq)) r hr

/-- Emitted records join the follow-ups of their source and no others. -/
theorem followUps_appendAll (l : Log) {ps : List PendingRecord} {s : Nat}
    (h : ∀ p ∈ ps, p.sourcePosition = some s) (q : Nat) :
    (l.appendAll ps).followUps q = l.followUps q ++ if q = s then l.entries ps else [] := by
  unfold followUps
  rw [appendAll_records, List.filter_append]
  congr 1
  have hs := entries_source (l := l) h
  split
  · subst q
    exact List.filter_eq_self.mpr fun r hr => by simp [hs r hr]
  · rename_i hne
    refine List.filter_eq_nil_iff.mpr fun r hr => ?_
    simp only [hs r hr, Option.some.injEq, decide_eq_true_eq]
    exact fun heq => hne heq.symm

theorem followUps_append_external (l : Log) {p : PendingRecord} (h : p.sourcePosition = none)
    (q : Nat) : (l.append p).followUps q = l.followUps q := by
  have hs : (l.record p).sourcePosition = none := h
  simp [followUps, List.filter_append, hs]

theorem foldl_max_le {xs : List Nat} {a n : Nat} :
    xs.foldl max a ≤ n ↔ a ≤ n ∧ ∀ x ∈ xs, x ≤ n := by
  induction xs generalizing a with
  | nil => simp
  | cons x xs ih =>
    rw [List.foldl_cons, ih, Nat.max_le]
    simp only [List.mem_cons, forall_eq_or_imp, and_assoc]

/-- The last source position is the least bound of all source positions. -/
theorem lastSourcePosition_le_iff {l : Log} {n : Nat} :
    l.lastSourcePosition ≤ n ↔ ∀ r ∈ l.records, ∀ q, r.sourcePosition = some q →
      q ≤ n := by
  unfold lastSourcePosition
  rw [foldl_max_le]
  simp only [Nat.zero_le, true_and, List.mem_filterMap]
  constructor
  · intro h r hr q hq
    exact h q ⟨r, hr, hq⟩
  · rintro h q ⟨r, hr, hq⟩
    exact h r hr q hq

end Log

end WorkflowEngine
