import EntityMapper.Binary64
import EntityMapper.Text.Ascii

/-!
# Reading decimal text

Two readers over whole texts: one for 64-bit integers and one for floating point
numbers. Both take an optional sign. The integer reader names what is wrong with
the first bad character, and an overflow is reported as soon as the digits so
far leave the range. The float reader rounds correctly and also knows the words
for infinity and NaN.
-/

namespace EntityMapper.Decimal

/-- Why a text is not a 64-bit integer. -/
inductive IntFault
  | empty
  | invalidDigit
  | tooLarge
  | tooSmall
deriving DecidableEq

def IntFault.message : IntFault → String
  | .empty => "cannot parse integer from empty string"
  | .invalidDigit => "invalid digit found in string"
  | .tooLarge => "number too large to fit in target type"
  | .tooSmall => "number too small to fit in target type"

/-- The value of a decimal digit. -/
def digitValue? (c : Char) : Option Nat :=
  if '0' ≤ c ∧ c ≤ '9' then some (c.toNat - '0'.toNat) else none

/-- Read digits onto a non-negative total, refusing the first total above
`bound`. -/
def readDigits (bound : Nat) (overflow : IntFault) :
    List Char → Nat → Except IntFault Nat
  | [], total => .ok total
  | c :: rest, total =>
    match digitValue? c with
    | none => .error .invalidDigit
    | some d =>
      let next := 10 * total + d
      if bound < next then .error overflow else readDigits bound overflow rest next

/-- Read a text that is a 64-bit integer from end to end. -/
def readInt64 (text : List Char) : Except IntFault Int64 :=
  let positive (digits : List Char) : Except IntFault Int64 :=
    (readDigits (Nat.pow 2 63 - 1) .tooLarge digits 0).map fun n => Int64.ofInt n
  match text with
  | [] => .error .empty
  | ['+'] => .error .invalidDigit
  | ['-'] => .error .invalidDigit
  | '+' :: digits => positive digits
  | '-' :: digits =>
    (readDigits (Nat.pow 2 63) .tooSmall digits 0).map
      fun n => Int64.ofInt (-(n : Int))
  | digits => positive digits

/-- Why a text is not a floating point number. -/
inductive FloatFault
  | empty
  | invalid
deriving DecidableEq

def FloatFault.message : FloatFault → String
  | .empty => "cannot parse float from empty string"
  | .invalid => "invalid float literal"

/-- The value of a digit string; characters that are no digits count as zero. -/
def digitsValue (digits : List Char) : Nat :=
  digits.foldl (fun total c => 10 * total + (c.toNat - '0'.toNat)) 0

/-- Read an exponent part, which must fill the rest of the text; no exponent
part is zero. -/
def readExponent? (text : List Char) : Option Int :=
  let unsigned (digits : List Char) : Option Nat :=
    if digits.isEmpty || !digits.all Text.isDigit then none
      else some (digitsValue digits)
  match text with
  | [] => some 0
  | marker :: rest =>
    if marker = 'e' ∨ marker = 'E' then
      match rest with
      | '-' :: digits => (unsigned digits).map fun n => -(n : Int)
      | '+' :: digits => (unsigned digits).map fun n => (n : Int)
      | digits => (unsigned digits).map fun n => (n : Int)
    else none

/-- Read an unsigned number: digits with an optional point anywhere among them,
at least one digit, and an optional exponent. -/
def readUnsigned? (negative : Bool) (text : List Char) : Option Binary64 :=
  let whole := text.takeWhile Text.isDigit
  let afterWhole := text.dropWhile Text.isDigit
  let (fraction, rest) := match afterWhole with
    | '.' :: tail => (tail.takeWhile Text.isDigit, tail.dropWhile Text.isDigit)
    | tail => ([], tail)
  if whole.isEmpty && fraction.isEmpty then none
  else (readExponent? rest).map fun exponent =>
    .ofDecimal negative (digitsValue (whole ++ fraction))
      (exponent - fraction.length)

/-- Read a text that is a floating point number from end to end. The words for
infinity and NaN ignore letter case. -/
def readBinary64 (text : List Char) : Except FloatFault Binary64 :=
  let body (negative : Bool) (rest : List Char) : Except FloatFault Binary64 :=
    let word := rest.map Text.asciiLower
    if word = "inf".toList ∨ word = "infinity".toList then .ok (.infinity negative)
    else if word = "nan".toList then .ok .nan
    else match readUnsigned? negative rest with
      | some x => .ok x
      | none => .error .invalid
  match text with
  | [] => .error .empty
  | '-' :: rest => body true rest
  | '+' :: rest => body false rest
  | rest => body false rest

end EntityMapper.Decimal
