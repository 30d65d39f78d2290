import EntityMapper.Decimal.Shortest

/-!
# Layouts of floating point text

A layout turns shortest digits into text: which exponents are written
positionally, whether a whole number keeps a `.0`, how an exponent is signed,
and what stands for the values that have no digits. Three layouts are in use,
one per kind of output.
-/

namespace EntityMapper.Decimal

/-- The choices that fix how a number is written. -/
structure Layout where
  /-- Scientific exponents that are written positionally; `none` means all of
  them. -/
  positional : Option (Int × Int)
  /-- Whether a whole number ends in `.0`. -/
  wholePoint : Bool
  /-- Whether a non-negative exponent carries a plus sign. -/
  plusSign : Bool
  tie : Tie
  nan : String
  infinity : String
  negativeInfinity : String

/-- Numbers inside a JSON document. Values without digits have no JSON form. -/
def Layout.json : Layout :=
  ⟨some (-5, 15), true, true, .even, "null", "null", "null"⟩

/-- Numbers as shown to a reader: always positional, and a whole number has no
point. -/
def Layout.display : Layout := ⟨none, false, false, .up, "NaN", "inf", "-inf"⟩

/-- Numbers inside a diagnostic: a whole number keeps its point, extremes get an
exponent. -/
def Layout.diagnostic : Layout :=
  ⟨some (-4, 15), true, false, .up, "NaN", "inf", "-inf"⟩

/-- Digits of a natural number, without leading zeros; zero is the single digit
`0`. -/
def natText (n : Nat) : String := String.ofList (Nat.toDigits 10 n)

/-- Digits of an integer, with a leading minus sign when it is negative. -/
def intText (n : Int) : String :=
  if n < 0 then "-" ++ natText n.natAbs else natText n.natAbs

/-- `digits * 10 ^ exponent` without an exponent: the point moves through the
digits, and zeros fill the gap on either side. -/
def positionalText (wholePoint : Bool) (s : Scientific) : String :=
  let digits := Nat.toDigits 10 s.digits
  if 0 ≤ s.exponent then
    String.ofList (digits ++ List.replicate s.exponent.toNat '0') ++
      if wholePoint then ".0" else ""
  else
    let fractional := (-s.exponent).toNat
    if fractional < digits.length then
      String.ofList (digits.take (digits.length - fractional)) ++ "." ++
        String.ofList (digits.drop (digits.length - fractional))
    else
      "0." ++
        String.ofList (List.replicate (fractional - digits.length) '0' ++ digits)

/-- One digit, the point, the other digits, and the exponent. A single digit has
no point. -/
def exponentText (plusSign : Bool) (s : Scientific) : String :=
  let digits := Nat.toDigits 10 s.digits
  let exponent := s.exponent + (digits.length - 1 : Nat)
  let fraction :=
    if digits.length ≤ 1 then "" else "." ++ String.ofList (digits.drop 1)
  String.ofList (digits.take 1) ++ fraction ++ "e" ++
    (if plusSign && decide (0 ≤ exponent) then "+" else "") ++ intText exponent

/-- The text of a number in a layout. -/
def Layout.text (layout : Layout) (x : Binary64) : String :=
  if x.isNaN then layout.nan
  else if x.isInfinite then
    if x.negative then layout.negativeInfinity else layout.infinity
  else
    let s := shortest layout.tie x
    let exponent := s.exponent + ((Nat.toDigits 10 s.digits).length - 1 : Nat)
    let positional := match layout.positional with
      | none => true
      | some (low, high) => decide (low ≤ exponent) && decide (exponent ≤ high)
    (if x.negative then "-" else "") ++ if positional then
        positionalText layout.wholePoint s else exponentText layout.plusSign s

end EntityMapper.Decimal
