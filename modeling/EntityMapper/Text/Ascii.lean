/-!
# ASCII letters and digits

The classes and case maps of the command language know ASCII alone; every other
character is left as it is.
-/

namespace EntityMapper.Text

def isDigit (c : Char) : Bool := decide ('0' ≤ c) && decide (c ≤ '9')

def isLower (c : Char) : Bool := decide ('a' ≤ c) && decide (c ≤ 'z')

def isUpper (c : Char) : Bool := decide ('A' ≤ c) && decide (c ≤ 'Z')

def isLetter (c : Char) : Bool := isLower c || isUpper c

/-- The lower-case form of an ASCII letter, any other character unchanged. -/
def asciiLower (c : Char) : Char :=
  if isUpper c then Char.ofNat (c.toNat + 32) else c

/-- The upper-case form of an ASCII letter, any other character unchanged. -/
def asciiUpper (c : Char) : Char :=
  if isLower c then Char.ofNat (c.toNat - 32) else c

def toAsciiLower (text : String) : String := text.map asciiLower

def toAsciiUpper (text : String) : String := text.map asciiUpper

/-- Equality of texts up to the case of ASCII letters. -/
def eqIgnoringAsciiCase (s t : String) : Bool := toAsciiLower s == toAsciiLower t

end EntityMapper.Text
