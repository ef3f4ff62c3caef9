/-! # Words

    How many numbers fit the words of a fixed width.
-/

namespace WorkflowEngine

/-- The number of 32-bit words, two to the power of 32. -/
def words32 : Nat := 4294967296

/-- The number of 64-bit words, two to the power of 64. -/
def words64 : Nat := 18446744073709551616

/-- The number of 64-bit words that stand for negative numbers, two to the power of 63. -/
def halfWords64 : Nat := 9223372036854775808

/-- Whether a number fits a 64-bit word with a sign. -/
def fitsSigned64 (n : Int) : Bool := -halfWords64 ≤ n && n < halfWords64

end WorkflowEngine
