import Mathlib.Logic.Function.Basic
import WorkflowEngine.Proofs.Keys
import WorkflowEngine.Proofs.Log

/-! # Fresh Keys of Several Logs

    Logs draw their keys without talking to each other. In whatever order
    records are appended to them, each log ends up with what it was handed, so
    its fresh keys are those of the counters from one on. Between logs the
    partitions keep them apart, within a log the counters do.
-/

namespace WorkflowEngine

namespace Log

/-! ## Appending to several logs -/

section Each

variable {ι : Type*} [DecidableEq ι]

/-- Some logs after records have been appended to them one by one. -/
def appendEach (logs : ι → Log) (ops : List (ι × PendingRecord)) : ι → Log :=
  ops.foldl (fun logs op => Function.update logs op.1 ((logs op.1).append op.2)) logs

/-- What one of the logs is handed over. -/
def handedTo (i : ι) (ops : List (ι × PendingRecord)) : List PendingRecord :=
  ops.filterMap fun op => if op.1 = i then some op.2 else none

theorem handedTo_cons_self (op : ι × PendingRecord) (ops : List (ι × PendingRecord)) :
    handedTo op.1 (op :: ops) = op.2 :: handedTo op.1 ops :=
  List.filterMap_cons_some (if_pos rfl)

theorem handedTo_cons_of_ne {i : ι} {op : ι × PendingRecord} (h : op.1 ≠ i)
    (ops : List (ι × PendingRecord)) : handedTo i (op :: ops) = handedTo i ops :=
  List.filterMap_cons_none (if_neg h)

/-- A log is left alone by what is appended to the others. -/
theorem appendEach_apply (logs : ι → Log) (ops : List (ι × PendingRecord)) (i : ι) :
    appendEach logs ops i = (logs i).appendAll (handedTo i ops) := by
  induction ops generalizing logs with
  | nil => rfl
  | cons op ops ih =>
    have hstep : appendEach logs (op :: ops) i =
        (Function.update logs op.1 ((logs op.1).append op.2) i).appendAll (handedTo i ops) := ih _
    rw [hstep]
    by_cases hop : op.1 = i
    · subst hop
      rw [Function.update_self, handedTo_cons_self, appendAll_cons]
    · rw [Function.update_of_ne (Ne.symm hop), handedTo_cons_of_ne hop]

/-! ## Drawn keys -/

/-- In its place `a`, the `i`-th of some new logs has a record that was handed over without a
    key. -/
def Drew (ids : ι → PartitionId) (ops : List (ι × PendingRecord)) (i : ι) (a : Nat)
    (r : Record) : Prop :=
  ∃ p, (handedTo i ops)[a]? = some p ∧ p.key = none ∧
    (appendEach (fun i => { partitionId := ids i }) ops i).records[a]? = some r

variable {ids : ι → PartitionId} {ops : List (ι × PendingRecord)} {i : ι} {a b : Nat}
  {r s : Record}

/-- The counter of the key that a log draws in a place. -/
def counterAt (i : ι) (ops : List (ι × PendingRecord)) (a : Nat) : Nat :=
  draws ((handedTo i ops).take (a + 1))

theorem counterAt_le (i : ι) (ops : List (ι × PendingRecord)) (a : Nat) :
    counterAt i ops a ≤ draws (handedTo i ops) :=
  (List.take_sublist _ _).countP_le

theorem exists_drew (ids : ι → PartitionId) {p : PendingRecord}
    (hp : (handedTo i ops)[a]? = some p) (hkey : p.key = none) : ∃ r, Drew ids ops i a r := by
  have hrecord := getElem?_appendAll_new (ids i) (handedTo i ops) a
  rw [hp, Option.map_some,
    ← appendEach_apply (fun i => { partitionId := ids i }) ops i] at hrecord
  exact ⟨_, p, hp, hkey, hrecord⟩

theorem Drew.key_eq (h : Drew ids ops i a r) :
    r.key = Key.encode (ids i) (counterAt i ops a : Nat) := by
  obtain ⟨p, hp, hkey, hr⟩ := h
  rw [appendEach_apply] at hr
  exact key_of_draw hp hkey hr

/-- Counters go up from one drawn key to the next. -/
theorem Drew.counterAt_lt (h : Drew ids ops i b s) (hab : a < b) :
    counterAt i ops a < counterAt i ops b := by
  obtain ⟨p, hp, hkey, -⟩ := h
  have hle : counterAt i ops a ≤ draws ((handedTo i ops).take b) := draws_take_le _ hab
  have hdrawn : counterAt i ops b = draws ((handedTo i ops).take b) + 1 := draws_take_succ hp hkey
  omega

/-- A counter is drawn in one place only. -/
theorem Drew.eq_of_counterAt (hr : Drew ids ops i a r) (hs : Drew ids ops i b s)
    (h : counterAt i ops a = counterAt i ops b) : a = b := by
  rcases Nat.lt_trichotomy a b with hab | rfl | hba
  · exact absurd h (Nat.ne_of_lt (hs.counterAt_lt hab))
  · rfl
  · exact absurd h (Nat.ne_of_gt (hr.counterAt_lt hba))

/-! ## Keys of different logs -/

/-- The drawn keys of some new logs tell the log and the place. -/
structure Apart (ids : ι → PartitionId) (ops : List (ι × PendingRecord)) : Prop where
  /-- What is handed over without a key does draw one. -/
  drawn : ∀ i a p, (handedTo i ops)[a]? = some p → p.key = none → ∃ r, Drew ids ops i a r
  partition : ∀ i a r, Drew ids ops i a r → r.key.partition = ids i
  distinct : ∀ i a r j b s, Drew ids ops i a r → Drew ids ops j b s → r.key = s.key →
    i = j ∧ a = b
  increasing : ∀ i a r b s, Drew ids ops i a r → Drew ids ops i b s → a < b → r.key < s.key

theorem drawn_keys_apart (hids : Function.Injective ids) (hsmall : ∀ i, ids i < 4096)
    (hdraws : ∀ i, draws (handedTo i ops) < Key.counters) : Apart ids ops := by
  have hcounter : ∀ i a, counterAt i ops a < Key.counters := fun i a =>
    Nat.lt_of_le_of_lt (counterAt_le i ops a) (hdraws i)
  refine ⟨?_, ?_, ?_, ?_⟩
  · intro i a p hp hkey
    exact exists_drew ids hp hkey
  · intro i a r hr
    rw [hr.key_eq]
    exact Key.partition_encode_of_lt (hsmall i) (hcounter i a)
  · intro i a r j b s hr hs heq
    rw [hr.key_eq, hs.key_eq,
      Key.encode_eq_iff_of_lt (hsmall i) (hsmall j) (hcounter i a) (hcounter j b)] at heq
    obtain ⟨hcount, hsame⟩ := heq
    obtain rfl := hids hsame
    exact ⟨rfl, hr.eq_of_counterAt hs hcount⟩
  · intro i a r b s hr hs hab
    rw [hr.key_eq, hs.key_eq,
      Key.encode_lt_iff_of_lt (hsmall i) (hsmall i) (hcounter i a) (hcounter i b)]
    exact .inr ⟨rfl, hs.counterAt_lt hab⟩

end Each

end Log

/-! ## Keys as names -/

namespace Key

open Log

/-- **What a key names.** A key takes 64 bits, is shared only by partitions with the same lower 13
    bits, leads back to the partitions with 12 bits and a sign, and those of 12 bits order the
    keys. So logs of such partitions never draw the same key. -/
theorem names_partition_and_counter :
    (∀ p c : Nat, c < counters → fitsSigned64 (encode p c)) ∧
    (∀ p q c d : Nat, c < counters → d < counters →
      (encode p c = encode q d ↔ c = d ∧ p % 8192 = q % 8192)) ∧
    (∀ p c : Nat, p < words32 → c < counters →
      (partition (encode p c) = p ↔ p < 4096 ∨ words32 - 4096 ≤ p)) ∧
    (∀ p q c d : Nat, p < 4096 → q < 4096 → c < counters → d < counters →
      (encode p c < encode q d ↔ p < q ∨ p = q ∧ c < d)) ∧
    (∀ (ι : Type) [DecidableEq ι] (ids : ι → PartitionId) (ops : List (ι × PendingRecord)),
      Function.Injective ids → (∀ i, ids i < 4096) →
      (∀ i, draws (handedTo i ops) < counters) → Apart ids ops) := by
  refine ⟨?_, ?_, ?_, ?_, ?_⟩
  · intro p c hc
    exact fits_encode hc
  · intro p q c d hc hd
    exact encode_eq_iff hc hd
  · intro p c hp hc
    exact partition_encode_eq_iff hp hc
  · intro p q c d hp hq hc hd
    exact encode_lt_iff_of_lt hp hq hc hd
  · intro ι _ ids ops hids hsmall hdraws
    exact drawn_keys_apart hids hsmall hdraws

/-- The partitions of two logs. -/
def twoPartitions : Bool → PartitionId
  | false => 3
  | true => 5

/-- Commands to both in turn, and a record about the entity of the first one. -/
def turns : List (Bool × PendingRecord) :=
  [(false, .external .elementActivating {}), (true, .external .elementActivating {}),
   (false, (PendingRecord.followUp .elementActivated {} 1).withKey (encode 3 1)),
   (true, .external .elementActivating {})]

/-- The second log draws two keys of its own; a partition that is too large shares the keys of
    another one, to which they lead back. -/
theorem two_logs_draw_apart :
    (∃ r s, Drew twoPartitions turns true 0 r ∧ Drew twoPartitions turns true 1 s ∧
      r.key.partition = 5 ∧ r.key < s.key) ∧
    encode 8195 1 = encode 3 1 ∧ partition (encode 8195 1) ≠ 8195 ∧
    encode 3 7 < encode 5 1 ∧ fitsSigned64 (encode 8195 1) := by
  obtain ⟨hfits, hsame, hback, horder, hlogs⟩ := names_partition_and_counter
  have hapart : Apart twoPartitions turns := by
    refine hlogs Bool _ _ ?_ ?_ ?_
    · intro b b' h
      cases b <;> cases b' <;> first | rfl | cases h
    · intro b
      cases b <;> decide
    · intro b
      cases b <;> decide
  have hfirst : Drew twoPartitions turns true 0 _ := ⟨_, rfl, rfl, rfl⟩
  have hsecond : Drew twoPartitions turns true 1 _ := ⟨_, rfl, rfl, rfl⟩
  refine ⟨⟨_, _, hfirst, hsecond, hapart.partition _ _ _ hfirst,
    hapart.increasing _ _ _ _ _ hfirst hsecond (by decide)⟩, ?_, ?_, ?_, ?_⟩
  · exact (hsame 8195 3 1 1 (by decide) (by decide)).mpr (by decide)
  · exact fun h => absurd ((hback 8195 1 (by decide) (by decide)).mp h) (by decide)
  · exact (horder 3 5 7 1 (by decide) (by decide) (by decide) (by decide)).mpr (by decide)
  · exact hfits 8195 1 (by decide)

end Key

end WorkflowEngine
