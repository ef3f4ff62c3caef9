import WorkflowEngine.Number.Binary64

/-! # Shortest Decimal Digits

    Of all decimals that read back as a given float, the shortest digit
    strings, and among those the nearest to it. A decimal reads back if it
    lies between the midpoints to the neighbouring floats; the midpoints
    themselves belong to the float whose significand is even.
-/

namespace WorkflowEngine

/-- A decimal magnitude `digits * 10 ^ exponent`. -/
structure DecimalFraction where
  /-- The digits as one number. -/
  digits : Nat
  /-- The power of ten. -/
  exponent : Int
  deriving DecidableEq, Repr

namespace DecimalFraction

/-- The same magnitude without trailing zeros; the first argument bounds their number. -/
def trim : Nat → DecimalFraction → DecimalFraction
  | 0, d => d
  | n + 1, d =>
    if d.digits ≠ 0 ∧ d.digits % 10 = 0 then trim n ⟨d.digits / 10, d.exponent + 1⟩ else d

end DecimalFraction

/-- The decimals that read back as a float: those between two fractions of one
    denominator, around the float itself. -/
structure ReadingInterval where
  /-- The numerator of the lower midpoint. -/
  lower : Nat
  /-- The numerator of the float. -/
  center : Nat
  /-- The numerator of the upper midpoint. -/
  upper : Nat
  /-- The common denominator. -/
  den : Nat
  /-- Whether the midpoints themselves read back. -/
  closed : Bool

namespace ReadingInterval

/-- The interval of a positive magnitude. Below a power of two the floats lie
    twice as dense, except at the least exponent. -/
def ofFraction (x : BinaryFraction) : ReadingInterval :=
  -- In quarters of the last place: half a place up, and half or a quarter down.
  let below := if x.significand = BinaryFraction.implicitBit ∧ -1074 < x.exponent then 1 else 2
  let fine : BinaryFraction := ⟨1, x.exponent - 2⟩
  { lower := (4 * x.significand - below) * fine.num
    center := 4 * x.significand * fine.num
    upper := (4 * x.significand + 2) * fine.num
    den := fine.den
    closed := x.significand % 2 = 0 }

/-- Whether `num / den` lies in the interval, for numerators over the common denominator. -/
def holds (i : ReadingInterval) (num : Nat) : Bool :=
  if i.closed then i.lower ≤ num && num ≤ i.upper else i.lower < num && num < i.upper

/-- The interval with every fraction multiplied by `10 ^ (-exponent)`. -/
def scale (i : ReadingInterval) (exponent : Int) : ReadingInterval :=
  let up := Nat.pow 10 (-exponent).toNat
  { i with
    lower := i.lower * up
    center := i.center * up
    upper := i.upper * up
    den := i.den * Nat.pow 10 exponent.toNat }

/-- The multiple of `10 ^ exponent` that reads back and is nearest to the float.
    Only its two neighbours among the multiples can be. -/
def nearest? (i : ReadingInterval) (exponent : Int) : Option DecimalFraction :=
  let s := i.scale exponent
  let floor := s.center / s.den
  let below := s.holds (floor * s.den)
  let above := s.holds ((floor + 1) * s.den)
  let twice := 2 * (s.center % s.den)
  -- Of two that read back the nearer one counts, and halfway the even one.
  if below && (!above || twice < s.den || (twice = s.den && floor % 2 = 0)) then
    some ⟨floor, exponent⟩
  else if above then some ⟨floor + 1, exponent⟩
  else none

/-- Try ever finer powers of ten, from `exponent` down. -/
def search (i : ReadingInterval) : Nat → Int → Option DecimalFraction
  | 0, _ => none
  | n + 1, exponent => (i.nearest? exponent).or (i.search n (exponent - 1))

end ReadingInterval

/-- The number of decimal digits of a number, at least one. -/
def digitCount (n : Nat) : Nat := (Nat.toDigits 10 n).length

/-- The shortest decimal that reads back as a positive magnitude. Seventeen
    digits always suffice; the search starts one place above the first digit. -/
def BinaryFraction.shortest (x : BinaryFraction) : DecimalFraction :=
  let places : Int := digitCount (x.num / x.den)
  let leading : Int :=
    if x.num < x.den then -((digitCount (x.den / x.num) : Int)) else places
  match (ReadingInterval.ofFraction x).search 20 leading with
  | some d => d.trim 20
  | none => ⟨0, 0⟩

/-! ## Layout -/

/-- Where a format writes a decimal in positional notation, and how it spells
    the exponent elsewhere. The point of `0.d₁d₂… * 10 ^ p` is at place `p`. -/
structure FloatLayout where
  leastPlace : Int
  greatestPlace : Int
  /-- What stands before the exponent. -/
  exponentMark : String

namespace FloatLayout

/-- The text of positive digits whose point is at place `place`. -/
def writeDigits (layout : FloatLayout) (digits : List Char) (place : Int) : String :=
  let count : Int := digits.length
  if layout.leastPlace ≤ place ∧ place ≤ layout.greatestPlace then
    if place ≤ 0 then
      "0." ++ String.ofList (List.replicate (-place).toNat '0' ++ digits)
    else if count ≤ place then
      String.ofList (digits ++ List.replicate (place - count).toNat '0') ++ ".0"
    else
      String.ofList (digits.take place.toNat) ++ "." ++ String.ofList (digits.drop place.toNat)
  else
    -- One digit before the point, and no point without digits after it.
    let fraction :=
      match digits.drop 1 with
      | [] => ""
      | rest => "." ++ String.ofList rest
    String.ofList (digits.take 1) ++ fraction ++ layout.exponentMark ++ toString (place - 1)

/-- The shortest text of a finite float. -/
def write (layout : FloatLayout) (x : Float) : String :=
  let magnitude := BinaryFraction.ofFloat x
  let unsigned :=
    if magnitude.significand = 0 then "0.0"
    else
      let d := magnitude.shortest
      let digits := Nat.toDigits 10 d.digits
      layout.writeDigits digits (d.exponent + digits.length)
  if signBit x then "-" ++ unsigned else unsigned

end FloatLayout

end WorkflowEngine
