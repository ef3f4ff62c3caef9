import WorkflowEngine.Number.Word

/-! # Decimal Numerals

    A numeral is the written form of a number: a sign, digits, and for a
    fraction or a power of ten the digits after the point and the exponent.
    Two ways of reading one as a float are given: `nearest` rounds the exact
    value once, `scaled?` takes as many digits as fit 64 bits and scales them
    by a power of ten.
-/

namespace WorkflowEngine

/-- The written form of a decimal number. -/
structure Numeral where
  negative : Bool
  /-- The digits before the point. -/
  whole : List Nat
  /-- The digits after the point, if there is one. -/
  fraction : Option (List Nat)
  /-- The power of ten, if one is written. -/
  exponent : Option Int
  deriving DecidableEq, Repr

namespace Numeral

/-! ## Reading text -/

/-- The value of a decimal digit. -/
def digit? (c : Char) : Option Nat :=
  if '0' ≤ c ∧ c ≤ '9' then some (c.toNat - '0'.toNat) else none

/-- The number that decimal digits write. -/
def value (digits : List Nat) : Nat := digits.foldl (fun n d => 10 * n + d) 0

/-- The digits at the front of a text, and the rest. -/
def takeDigits : List Char → List Nat × List Char
  | [] => ([], [])
  | c :: rest =>
    match digit? c with
    | some d => let (ds, rest) := takeDigits rest; (d :: ds, rest)
    | none => ([], c :: rest)

/-- The digits after a point; at least one has to follow it. -/
def takeFraction : List Char → Option (Option (List Nat) × List Char)
  | '.' :: rest =>
    match takeDigits rest with
    | ([], _) => none
    | (ds, rest) => some (some ds, rest)
  | rest => some (none, rest)

/-- The sign of an exponent, and the rest. -/
def takeExponentSign : List Char → Bool × List Char
  | '-' :: rest => (true, rest)
  | '+' :: rest => (false, rest)
  | rest => (false, rest)

/-- The power of ten after an `e`; at least one digit has to follow. -/
def takeExponent : List Char → Option (Option Int × List Char)
  | c :: rest =>
    if c = 'e' ∨ c = 'E' then
      let (negative, rest) := takeExponentSign rest
      match takeDigits rest with
      | ([], _) => none
      | (ds, rest) =>
        let n : Int := value ds
        some (some (if negative then -n else n), rest)
    else some (none, c :: rest)
  | [] => some (none, [])

/-- A numeral from its whole text: an optional minus, digits without a
    superfluous leading zero, and optional fraction and exponent. -/
def ofText? (text : List Char) : Option Numeral :=
  let (negative, text) :=
    match text with
    | '-' :: rest => (true, rest)
    | _ => (false, text)
  match takeDigits text with
  | ([], _) | (0 :: _ :: _, _) => none
  | (whole, rest) => do
    let (fraction, rest) ← takeFraction rest
    let (exponent, rest) ← takeExponent rest
    if rest.isEmpty then some ⟨negative, whole, fraction, exponent⟩ else none

/-! ## Values -/

/-- Whether only digits are written. -/
def isWhole (n : Numeral) : Bool := n.fraction.isNone && n.exponent.isNone

/-- Put a float's sign. -/
def signed (n : Numeral) (x : Float) : Float := if n.negative then -x else x

/-- `10 ^ n` as a float. -/
def powerOfTen (n : Nat) : Float := Float.ofScientific 1 false n

/-- The float nearest to the exact value, infinite if that is beyond all floats. -/
def nearest (n : Numeral) : Float :=
  let fraction := n.fraction.getD []
  let digits := value (n.whole ++ fraction)
  let exponent := n.exponent.getD 0 - fraction.length
  let places : Int := (Nat.toDigits 10 digits).length
  -- Far outside the range of floats the power of ten is not worked out.
  n.signed <|
    if digits = 0 ∨ places + exponent < -330 then 0
    else if 330 < places + exponent then 1 / 0
    else Float.ofScientific digits (exponent < 0) exponent.natAbs

/-- Append digits to a significand for as long as it fits 64 bits. Gives the
    significand and the number of digits that were left over. -/
def absorb (significand : Nat) : List Nat → Nat × Nat
  | [] => (significand, 0)
  | d :: rest =>
    if 10 * significand + d < words64 then absorb (10 * significand + d) rest
    else (significand, rest.length + 1)

/-- Multiply by a power of ten; there is no result beyond all floats. Scaling
    down goes in steps of `10 ^ 308`, of which three reach zero; the first
    argument bounds their number. -/
def scaleByTen : Nat → Float → Int → Option Float
  | 0, x, _ => some x
  | steps + 1, x, exponent =>
    if exponent < -308 then
      if x == 0 then some x else scaleByTen steps (x / powerOfTen 308) (exponent + 308)
    else if exponent < 0 then some (x / powerOfTen exponent.natAbs)
    else if 308 < exponent then
      if x == 0 then some x else none
    else
      let y := x * powerOfTen exponent.natAbs
      if y.isInf then none else some y

/-- The significand of at most 64 bits, rounded to a float and scaled by its
    power of ten; there is no result beyond all floats. -/
def scaled? (n : Numeral) : Option Float :=
  let fraction := n.fraction.getD []
  let (whole, dropped) := absorb 0 n.whole
  let (significand, unused) := absorb whole fraction
  let exponent : Int := n.exponent.getD 0 + dropped - (fraction.length - unused : Nat)
  (scaleByTen 5 significand.toUInt64.toFloat exponent).map n.signed

end Numeral

end WorkflowEngine
