import WorkflowEngine.Number.Word

/-! # Keys

    Every entity of a partition is named by a signed 64-bit key. The upper
    13 bits hold the partition, the lower 51 bits a counter of that
    partition, so partitions draw keys without talking to each other.
-/

namespace WorkflowEngine

/-- The name of an entity, a signed 64-bit number. -/
abbrev Key := Int

/-- The number of a partition, an unsigned 32-bit number. -/
abbrev PartitionId := Nat

namespace Key

/-- The value of a key field that names nothing. -/
def unset : Key := -1

/-- The number of values of a counter, two to the power of 51. -/
def counters : Nat := 2251799813685248

/-- The key of the entity number `counter` of a partition. The partition is
    shifted within 64 bits, which drops its upper bits. -/
def encode (partition : PartitionId) (counter : Int) : Key :=
  Int.bmod (partition * counters) words64 + counter

/-- The partition that a key belongs to: an arithmetic shift, cut to 32 bits. -/
def partition (key : Key) : PartitionId :=
  (Int.fdiv key counters % words32).toNat

end Key

end WorkflowEngine
