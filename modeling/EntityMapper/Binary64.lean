/-!
# Binary64 numbers

A floating point number is its 64-bit word: one sign bit, eleven exponent bits,
fifty-two fraction bits. Everything here is exact arithmetic on natural numbers,
so a statement about a number is a statement about its word. Comparison follows
IEEE 754: a NaN compares with nothing, and the two zeros are equal. Rounding is
to the nearest value, a tie going to the even significand.
-/

namespace EntityMapper

/-- A floating point number, given by its IEEE 754 word. -/
structure Binary64 where
  bits : UInt64
deriving DecidableEq, Inhabited

namespace Binary64

/-- The word of positive infinity. Every larger magnitude is a NaN. -/
def infinityBits : Nat := 0x7ff0000000000000

/-- The number with the given sign and magnitude word. -/
def ofMagnitude (negative : Bool) (magnitude : Nat) : Binary64 :=
  ⟨UInt64.ofNat (if negative then Nat.pow 2 63 + magnitude else magnitude)⟩

/-- The quiet NaN with an empty payload. -/
def nan : Binary64 := ⟨0x7ff8000000000000⟩

/-- Zero with the given sign. -/
def zero (negative : Bool) : Binary64 := ofMagnitude negative 0

/-- Infinity with the given sign. -/
def infinity (negative : Bool) : Binary64 := ofMagnitude negative infinityBits

/-- Whether the sign bit is set. -/
def negative (x : Binary64) : Bool := decide (Nat.pow 2 63 ≤ x.bits.toNat)

/-- The word without its sign bit. Magnitudes are ordered as the numbers are. -/
def magnitude (x : Binary64) : Nat := x.bits.toNat % Nat.pow 2 63

def isNaN (x : Binary64) : Bool := decide (infinityBits < x.magnitude)

def isInfinite (x : Binary64) : Bool := decide (x.magnitude = infinityBits)

def isFinite (x : Binary64) : Bool := decide (x.magnitude < infinityBits)

/-- Where a number stands in the order of all numbers; a NaN stands nowhere. -/
def orderKey? (x : Binary64) : Option Int :=
  if x.isNaN then none
  else some (if x.negative then -(x.magnitude : Int) else x.magnitude)

/-- IEEE comparison: `none` as soon as one side is a NaN. -/
def compare? (x y : Binary64) : Option Ordering :=
  match x.orderKey?, y.orderKey? with
  | some a, some b => some (compare a b)
  | _, _ => none

/-- IEEE equality. It is not reflexive at a NaN, and identifies the two zeros. -/
def numEq (x y : Binary64) : Bool := x.compare? y == some .eq

/-- The integer significand of a finite number: `|x| = significand * 2 ^ scale`. -/
def significand (x : Binary64) : Nat :=
  if x.magnitude < Nat.pow 2 52 then x.magnitude
    else x.magnitude % Nat.pow 2 52 + Nat.pow 2 52

/-- The power of two that goes with `significand`. -/
def scale (x : Binary64) : Int :=
  if x.magnitude < Nat.pow 2 52 then -1074
    else (x.magnitude / Nat.pow 2 52 : Nat) - 1075

/-- The quotient rounded to the nearest integer, a tie going to the even one. -/
def roundHalfEven (num den : Nat) : Nat :=
  let quotient := num / den
  let remainder := num % den
  if 2 * remainder < den then quotient
  else if den < 2 * remainder then quotient + 1
  else quotient + quotient % 2

/-- The greatest `k` with `2 ^ k ≤ num / den`, for positive arguments. -/
def floorLog2 (num den : Nat) : Int :=
  let k : Int := (num.log2 : Int) - den.log2
  if den * Nat.pow 2 k.toNat ≤ num * Nat.pow 2 (-k).toNat then k else k - 1

/-- The number nearest to `num / den`. A word past the greatest finite one is
infinity; the word of a rounded-up significand of all ones carries into the
exponent by itself. -/
def ofRatio (negative : Bool) (num den : Nat) : Binary64 :=
  if num = 0 then zero negative
  else
    let scale : Int := max (floorLog2 num den - 52) (-1074)
    let rounded :=
      roundHalfEven (num * Nat.pow 2 (-scale).toNat) (den * Nat.pow 2 scale.toNat)
    ofMagnitude negative
      (min ((scale + 1074).toNat * Nat.pow 2 52 + rounded) infinityBits)

/-- The number nearest to an integer. -/
def ofInt (n : Int) : Binary64 := ofRatio (decide (n < 0)) n.natAbs 1

/-- The number nearest to `digits * 10 ^ exponent`. Exponents so large or so
small that the result is certain are answered without forming the power. -/
def ofDecimal (negative : Bool) (digits : Nat) (exponent : Int) : Binary64 :=
  if digits = 0 then zero negative
  else if 400 < exponent then infinity negative
  else if (digits.log2 / 3 : Nat) + 1 + exponent < -400 then zero negative
  else ofRatio negative (digits * Nat.pow 10 exponent.toNat)
    (Nat.pow 10 (-exponent).toNat)

/-- The number nearest to a power of ten. -/
def powTen (exponent : Nat) : Binary64 := ofDecimal false 1 exponent

/-- The rounded product of two finite numbers. -/
def mul (x y : Binary64) : Binary64 :=
  let scale := x.scale + y.scale
  ofRatio (x.negative != y.negative)
    (x.significand * y.significand * Nat.pow 2 scale.toNat)
    (Nat.pow 2 (-scale).toNat)

/-- The rounded quotient of two finite numbers, the second one not zero. -/
def div (x y : Binary64) : Binary64 :=
  let scale := x.scale - y.scale
  ofRatio (x.negative != y.negative) (x.significand * Nat.pow 2 scale.toNat)
    (y.significand * Nat.pow 2 (-scale).toNat)

/-- The number with the sign bit set. -/
def neg (x : Binary64) : Binary64 := ofMagnitude (!x.negative) x.magnitude

/-- The integer part, clamped to the 64-bit signed range; a NaN gives zero. -/
def truncate (x : Binary64) : Int64 :=
  if x.isNaN then 0
  else
    let whole :=
      x.significand * Nat.pow 2 x.scale.toNat / Nat.pow 2 (-x.scale).toNat
    let signed : Int := if x.negative then -whole else whole
    Int64.ofInt (max Int64.minValue.toInt (min Int64.maxValue.toInt signed))

end Binary64

end EntityMapper
