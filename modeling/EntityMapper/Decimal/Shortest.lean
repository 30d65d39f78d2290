import EntityMapper.Binary64

/-!
# Shortest decimal digits

The decimal digits of a number are the fewest that read back as the number.
Among the decimals of that length that read back, the nearest one is taken; how
an exact tie goes is the caller's choice. All tests are done on integers: the
number, and the two ends of the interval of reals that round to it, are
multiples of one power of two.
-/

namespace EntityMapper.Decimal

/-- Where an exact tie between two neighbouring decimals goes. -/
inductive Tie
  | even
  | up
deriving DecidableEq

/-- The decimal `digits * 10 ^ exponent`. -/
structure Scientific where
  digits : Nat
  exponent : Int
deriving DecidableEq

/-- Take zeros off the end of a digit string. The fuel bounds the number of
digits. -/
def stripZeros : Nat → Scientific → Scientific
  | 0, s => s
  | fuel + 1, s =>
    if s.digits % 10 = 0 then stripZeros fuel ⟨s.digits / 10, s.exponent + 1⟩ else s

/-- The reals that round to a number, on the scale of four times its
significand: the number itself is `4 * significand`, the ends are half way to
its neighbours. Below a power of two the neighbours are closer. The ends belong
to the interval iff the significand is even. -/
structure Interval where
  low : Nat
  value : Nat
  high : Nat
  closed : Bool
  scale : Int

def Interval.of (x : Binary64) : Interval :=
  let m := x.significand
  let close :=
    x.magnitude % Nat.pow 2 52 == 0 && decide (Nat.pow 2 53 ≤ x.magnitude)
  ⟨if close then 4 * m - 1 else 4 * m - 2, 4 * m, 4 * m + 2,
    m % 2 == 0, x.scale - 2⟩

/-- The best decimal on the grid of multiples of `10 ^ grid`, if one of the two
grid points next to the value lies in the interval. -/
def Interval.nearest? (i : Interval) (tie : Tie) (grid : Int) : Option Scientific :=
  let up := Nat.pow 2 i.scale.toNat * Nat.pow 10 (-grid).toNat
  let unit := Nat.pow 2 (-i.scale).toNat * Nat.pow 10 grid.toNat
  let floor := i.value * up / unit
  let below :=
    decide (i.low * up < floor * unit) || (i.closed && i.low * up == floor * unit)
  let above := decide ((floor + 1) * unit < i.high * up) ||
    (i.closed && (floor + 1) * unit == i.high * up)
  let rest := i.value * up - floor * unit
  match below, above with
  | false, false => none
  | true, false => some ⟨floor, grid⟩
  | false, true => some ⟨floor + 1, grid⟩
  | true, true =>
    if 2 * rest < unit then some ⟨floor, grid⟩
    else if unit < 2 * rest then some ⟨floor + 1, grid⟩
    else match tie with
      | .even => some ⟨floor + floor % 2, grid⟩
      | .up => some ⟨floor + 1, grid⟩

/-- The number of digits before the decimal point of `value * 2 ^ scale`, at
least as an exponent: the least `k` with `value * 2 ^ scale < 10 ^ k`. -/
def Interval.places (i : Interval) : Int :=
  let guess : Int := ((i.value.log2 : Int) + i.scale) * 30103 / 100000
  let below (k : Int) : Bool :=
    decide (i.value * Nat.pow 2 i.scale.toNat * Nat.pow 10 (-k).toNat <
      Nat.pow 2 (-i.scale).toNat * Nat.pow 10 k.toNat)
  if below guess then guess else if below (guess + 1) then guess + 1 else guess + 2

/-- Try grids of one digit, two digits, and so on; seventeen digits always read
back. -/
def Interval.search (i : Interval) (tie : Tie) (places : Int) : Nat → Scientific
  | 0 => ⟨0, 0⟩
  | left + 1 =>
    match i.nearest? tie (places - (17 - left : Nat)) with
    | some s => s
    | none => i.search tie places left

/-- The fewest decimal digits that read back as the finite number `x`, sign
aside. The last digit is not zero unless `x` is zero. -/
def shortest (tie : Tie) (x : Binary64) : Scientific :=
  if x.magnitude = 0 then ⟨0, 0⟩
  else
    let i := Interval.of x
    stripZeros 20 (i.search tie i.places 17)

end EntityMapper.Decimal
