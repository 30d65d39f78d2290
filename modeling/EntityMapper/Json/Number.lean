import EntityMapper.Binary64
import EntityMapper.Decimal.Reading
import EntityMapper.Json.Fault

/-!
# Numbers in a JSON text

A number without point and exponent stays whole as long as it fits the unsigned
64-bit range, or the signed one when it is negative; `-0` is a floating point
number. Any other number is a floating point number. Its digits are gathered in
a 64-bit word; digits that do not fit only move the exponent, or are dropped
behind the point. The word is then rounded and multiplied or divided by a power
of ten, each step rounding once more.
-/

namespace EntityMapper.Json

/-- The value of a number. -/
inductive Number
  | int (value : Int)
  | float (value : Binary64)

/-- A reader takes characters off the front of a text. -/
abbrev Reader (α : Type) := List Char → Except Fault (α × List Char)

/-- The greatest word that digits are gathered in. -/
def maxWord : Nat := Nat.pow 2 64 - 1

/-- The greatest exponent that is read; a greater one decides the number by
itself. -/
def maxExponent : Nat := Nat.pow 2 31 - 1

/-- Divide by powers of ten in steps of at most `10 ^ 308`. After four full
steps every word has become zero. -/
def divideTens : Nat → Binary64 → Nat → Binary64
  | 0, _, _ => .zero false
  | steps + 1, x, tens =>
    if tens ≤ 308 then x.div (.powTen tens)
    else if x.magnitude = 0 then x
    else divideTens steps (x.div (.powTen 308)) (tens - 308)

/-- The floating point number of a word and an exponent, or nothing if it is too
large. -/
def scaled? (negative : Bool) (word : Nat) (exponent : Int) : Option Binary64 :=
  let signed (x : Binary64) : Binary64 := if negative then x.neg else x
  let x := Binary64.ofRatio false word 1
  if exponent < 0 then some (signed (divideTens 4 x (-exponent).toNat))
  else if 308 < exponent then if word = 0 then some (signed x) else none
  else
    let product := x.mul (.powTen exponent.toNat)
    if product.isInfinite then none else some (signed product)

/-- The value of a floating point number; a number out of range is a fault in a
strict reading and has no value otherwise. -/
def floatValue (strict negative : Bool) (word : Nat) (exponent : Int) :
    Reader (Option Number) :=
  fun rest =>
    match scaled? negative word exponent with
    | some x => .ok (some (.float x), rest)
    | none =>
      if strict then .error (.here .numberOutOfRange rest) else .ok (none, rest)

/-- The digits of an exponent after the first. One that grows past the limit
makes the number zero, or out of range if it is positive and the word is not
zero. -/
def exponentDigits (strict negative : Bool) (word : Nat) (start : Int)
    (positive : Bool) : Nat → Reader (Option Number)
  | value, [] =>
    floatValue strict negative word
      (if positive then start + value else start - value) []
  | value, c :: rest =>
    match Decimal.digitValue? c with
    | none =>
      let exponent := if positive then start + value else start - value
      floatValue strict negative word exponent (c :: rest)
    | some d =>
      let next := 10 * value + d
      if maxExponent < next then
        if word ≠ 0 ∧ positive then
          if strict then .error (.here .numberOutOfRange rest)
          else .ok (none, rest.dropWhile Text.isDigit)
        else .ok (some (.float (.zero negative)), rest.dropWhile Text.isDigit)
      else exponentDigits strict negative word start positive next rest

/-- The exponent part, after its marker. -/
def exponentPart (strict negative : Bool) (word : Nat) (start : Int) :
    Reader (Option Number) :=
  fun text =>
    let (positive, digits) := match text with
      | '+' :: rest => (true, rest)
      | '-' :: rest => (false, rest)
      | rest => (true, rest)
    match digits with
    | [] => .error (.here .endInValue [])
    | c :: rest =>
      match Decimal.digitValue? c with
      | some d => exponentDigits strict negative word start positive d rest
      | none => .error (.next .invalidNumber (c :: rest))

/-- What may follow the digits of a number: an exponent, or the end of the
number. -/
def afterFraction (strict negative : Bool) (word : Nat) (exponent : Int) :
    Reader (Option Number)
  | 'e' :: rest => exponentPart strict negative word exponent rest
  | 'E' :: rest => exponentPart strict negative word exponent rest
  | rest => floatValue strict negative word exponent rest

/-- The digits behind the point. `some` is needed: a point must be followed by a
digit. -/
def fractionDigits (strict negative : Bool) (exponent : Int) :
    Bool → Nat → Nat → Reader (Option Number)
  | started, word, places, text =>
    match text with
    | [] =>
      if started then floatValue strict negative word (exponent - places) []
      else .error (.next .endInValue [])
    | c :: rest =>
      match Decimal.digitValue? c with
      | none =>
        if started then
          afterFraction strict negative word (exponent - places) (c :: rest)
        else .error (.next .invalidNumber (c :: rest))
      | some d =>
        let next := 10 * word + d
        if maxWord < next then
          afterFraction strict negative word (exponent - places)
            (rest.dropWhile Text.isDigit)
        else fractionDigits strict negative exponent true next (places + 1) rest

/-- The part of a number after its whole digits, when it is not whole: a point
with digits, an exponent, or neither. -/
def afterWhole (strict negative : Bool) (word : Nat) (exponent : Int) :
    Reader (Option Number)
  | '.' :: rest => fractionDigits strict negative exponent false word 0 rest
  | rest => afterFraction strict negative word exponent rest

/-- A whole number that fits its range is whole; the others are floating point
numbers. -/
def wholeValue (negative : Bool) (word : Nat) : Number :=
  if negative then
    if 0 < word ∧ word ≤ Nat.pow 2 63 then .int (-(word : Int))
    else .float (Binary64.ofRatio false word 1).neg
  else .int word

/-- The whole digits after the first. -/
def wholeDigits (strict negative : Bool) : Nat → Reader (Option Number)
  | word, [] => .ok (some (wholeValue negative word), [])
  | word, c :: rest =>
    match Decimal.digitValue? c with
    | some d =>
      let next := 10 * word + d
      if maxWord < next then
        let more := (c :: rest).takeWhile Text.isDigit
        afterWhole strict negative word more.length
          ((c :: rest).dropWhile Text.isDigit)
      else wholeDigits strict negative next rest
    | none =>
      if c = '.' ∨ c = 'e' ∨ c = 'E' then
        afterWhole strict negative word 0 (c :: rest)
      else .ok (some (wholeValue negative word), c :: rest)

/-- A number after its sign. A leading zero stands alone before the point. -/
def readNumber (strict negative : Bool) : Reader (Option Number)
  | [] => .error (.here .endInValue [])
  | c :: rest =>
    match Decimal.digitValue? c with
    | none => .error (.next .invalidNumber (c :: rest))
    | some 0 =>
      match rest with
      | d :: more =>
        if Text.isDigit d then .error (.next .invalidNumber (d :: more))
        else wholeDigits strict negative 0 (d :: more)
      | [] => wholeDigits strict negative 0 []
    | some d => wholeDigits strict negative d rest

end EntityMapper.Json
