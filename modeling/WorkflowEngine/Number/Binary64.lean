import WorkflowEngine.Number.Word

/-! # Binary Fractions

    A finite 64-bit floating point number is an integer times a power of
    two. This module reads that pair off the bits, so that rounding and
    printing are exact arithmetic on natural numbers.
-/

namespace WorkflowEngine

/-- The quotient rounded to the nearest integer, a half to the even one. -/
def roundHalfEven (num den : Nat) : Nat :=
  let quotient := num / den
  let twice := 2 * (num % den)
  if twice < den then quotient
  else if den < twice then quotient + 1
  else quotient + quotient % 2

/-- The magnitude `significand * 2 ^ exponent`. -/
structure BinaryFraction where
  /-- The integer factor. -/
  significand : Nat
  /-- The power of two. -/
  exponent : Int
  deriving DecidableEq, Repr

namespace BinaryFraction

/-- The bit above the 52 stored ones of a normal significand. -/
def implicitBit : Nat := 4503599627370496

/-- The magnitude of a finite 64-bit float. -/
def ofFloat (x : Float) : BinaryFraction :=
  let bits := x.toBits.toNat
  let fraction := bits % implicitBit
  let scale := bits / implicitBit % 2048
  if scale = 0 then ⟨fraction, -1074⟩ else ⟨implicitBit + fraction, (scale : Int) - 1075⟩

/-- The denominator of the fraction, a power of two. -/
def den (x : BinaryFraction) : Nat := 1 <<< (-x.exponent).toNat

/-- The numerator of the fraction over `den`. -/
def num (x : BinaryFraction) : Nat := x.significand <<< x.exponent.toNat

/-- The integer nearest to `scale` times the fraction, a half to the even one. -/
def roundScaled (x : BinaryFraction) (scale : Nat) : Nat :=
  roundHalfEven (x.num * scale) x.den

end BinaryFraction

/-- Whether the sign bit of a float is set. -/
def signBit (x : Float) : Bool := halfWords64 ≤ x.toBits.toNat

end WorkflowEngine
