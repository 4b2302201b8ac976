/-!
# Digits

The digits of base ten and of base sixteen, and the numbers they write. Digits
are ASCII characters, and those of base sixteen come in both cases.
-/

namespace ResultHints

/-- The digits of base sixteen. -/
def isHexDigit (c : Char) : Bool :=
  c.isDigit || ('a' ≤ c && c ≤ 'f') || ('A' ≤ c && c ≤ 'F')

/-- The value of a digit of base sixteen. -/
def hexDigitValue (c : Char) : Nat :=
  if c.isDigit then c.toNat - '0'.toNat
  else if 'a' ≤ c then c.toNat - 'a'.toNat + 10
  else c.toNat - 'A'.toNat + 10

/-- The number that digits write in a base of at most sixteen. -/
def valueIn (base : Nat) (digits : List Char) : Nat :=
  digits.foldl (fun n c => base * n + hexDigitValue c) 0

/-- The number that digits of base sixteen write. -/
def hexValue (digits : List Char) : Nat := valueIn 16 digits

/-- The number that digits of base ten write. -/
def decimalValue (digits : List Char) : Nat := valueIn 10 digits

end ResultHints
