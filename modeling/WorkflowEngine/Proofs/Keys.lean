import WorkflowEngine.Key

/-! # Keys and Partitions

    A key is a multiple of the number of counters, told by the partition, plus
    a counter. The multiple has 13 bits with a sign. So partitions that agree
    in their lower 13 bits share their keys, and a key leads back to its
    partition exactly if those bits, read with a sign, are the partition.
-/

namespace WorkflowEngine

namespace Key

variable {id id' c d : Nat}

/-- What the upper bits of a key hold of its partition. -/
def upper (id : Nat) : Int := Int.bmod id 8192

theorem upper_eq (id : Nat) :
    upper id = if (id : Int) % 8192 < 4096 then (id : Int) % 8192 else (id : Int) % 8192 - 8192 :=
  Int.bmod_def id 8192

theorem le_upper (id : Nat) : -4096 ≤ upper id := by
  rw [upper_eq]
  split <;> omega

theorem upper_lt (id : Nat) : upper id < 4096 := by
  rw [upper_eq]
  split <;> omega

theorem upper_of_lt (h : id < 4096) : upper id = id := by
  have hsmall : (id : Int) % 8192 = id := Int.emod_eq_of_lt (by omega) (by omega)
  rw [upper_eq, hsmall, if_pos (by omega)]

theorem upper_eq_iff : upper id = upper id' ↔ id % 8192 = id' % 8192 := by
  have hid := upper_eq id
  have hid' := upper_eq id'
  omega

/-- Shifting a partition within 64 bits keeps just its upper bits. -/
theorem encode_eq (id : Nat) (c : Int) : encode id c = upper id * counters + c := by
  have hshift : Int.bmod (id * counters) words64 = upper id * counters := by
    rw [upper_eq, Int.bmod_def]
    unfold counters words64
    split <;> split <;> omega
  rw [encode, hshift]

theorem encode_injective (h : encode id c = encode id d) : c = d := by
  rw [encode_eq, encode_eq] at h
  exact Int.ofNat.inj (Int.add_left_cancel h)

theorem encode_emod (h : c < counters) : encode id c % (counters : Int) = (c : Int) := by
  rw [encode_eq, Int.add_comm, Int.add_mul_emod_self_right]
  exact Int.emod_eq_of_lt (Int.natCast_nonneg c) (Int.ofNat_lt.mpr h)

/-- Only the last counter of a partition may be taken for an unset key. -/
theorem encode_ne_unset (h : c + 1 < counters) : encode id c ≠ unset := by
  intro heq
  have hmod : encode id c % (counters : Int) = (c : Int) := encode_emod (by omega)
  have hunset : unset % (counters : Int) = (counters - 1 : Nat) := by decide
  rw [heq, hunset] at hmod
  have hlast : counters - 1 = c := Int.ofNat.inj hmod
  omega

/-- A shifted partition and a counter never make more than 64 bits. -/
theorem fits_encode (h : c < counters) : fitsSigned64 (encode id c) := by
  have hle := le_upper id
  have hlt := upper_lt id
  unfold counters at h
  have hleast : -(halfWords64 : Int) ≤ upper id * counters + c := by
    unfold counters halfWords64
    omega
  have hmost : upper id * counters + c < (halfWords64 : Int) := by
    unfold counters halfWords64
    omega
  rw [encode_eq]
  simp [fitsSigned64, hleast, hmost]

/-- Keys are ordered by their upper bits and then by their counters. -/
theorem encode_lt_iff (hc : c < counters) (hd : d < counters) :
    encode id c < encode id' d ↔ upper id < upper id' ∨ upper id = upper id' ∧ c < d := by
  rw [encode_eq, encode_eq]
  show (upper id * counters + c : Int) < upper id' * counters + d ↔ _
  unfold counters at *
  omega

/-- Two keys are the same if their counters are, and their partitions in the lower 13 bits. -/
theorem encode_eq_iff (hc : c < counters) (hd : d < counters) :
    encode id c = encode id' d ↔ c = d ∧ id % 8192 = id' % 8192 := by
  rw [encode_eq, encode_eq, ← upper_eq_iff]
  show (upper id * counters + c : Int) = upper id' * counters + d ↔ _
  unfold counters at *
  omega

/-- Keys of small partitions are ordered by partition and then by counter. -/
theorem encode_lt_iff_of_lt (hid : id < 4096) (hid' : id' < 4096) (hc : c < counters)
    (hd : d < counters) : encode id c < encode id' d ↔ id < id' ∨ id = id' ∧ c < d := by
  rw [encode_lt_iff hc hd, upper_of_lt hid, upper_of_lt hid', Int.ofNat_lt, Int.ofNat_inj]

/-- Small partitions share no keys. -/
theorem encode_eq_iff_of_lt (hid : id < 4096) (hid' : id' < 4096) (hc : c < counters)
    (hd : d < counters) : encode id c = encode id' d ↔ c = d ∧ id = id' := by
  rw [encode_eq_iff hc hd, Nat.mod_eq_of_lt (Nat.lt_trans hid (by decide)),
    Nat.mod_eq_of_lt (Nat.lt_trans hid' (by decide))]

/-- A key leads back to its partition as far as its upper bits tell. -/
theorem partition_encode (h : c < counters) :
    partition (encode id c) = (upper id % words32).toNat := by
  have hdiv : Int.fdiv (encode id c) counters = upper id := by
    rw [Int.fdiv_eq_ediv_of_nonneg _ (Int.natCast_nonneg counters), encode_eq]
    unfold counters at *
    omega
  rw [partition, hdiv]

theorem partition_encode_eq_iff (hid : id < words32) (h : c < counters) :
    partition (encode id c) = id ↔ id < 4096 ∨ words32 - 4096 ≤ id := by
  have hback : (upper id % (words32 : Int)).toNat = id ↔ id < 4096 ∨ words32 - 4096 ≤ id := by
    rw [upper_eq]
    unfold words32 at *
    split <;> omega
  rw [partition_encode h]
  exact hback

theorem partition_encode_of_lt (hid : id < 4096) (h : c < counters) :
    partition (encode id c) = id :=
  (partition_encode_eq_iff (Nat.lt_trans hid (by decide)) h).mpr (.inl hid)

end Key

end WorkflowEngine
