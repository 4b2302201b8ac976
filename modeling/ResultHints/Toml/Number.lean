import ResultHints.Text.Digit

/-!
# Numbers in TOML

Which words are numbers (`isNumber`). Digits may be set apart by single
underscores, and numbers in base ten have no leading zero. A number is refused if
it is too large to be held:

* an integer takes at most 128 bits, with a sign or without (`fitsInteger`);
* a number with a fraction or an exponent does not round to infinity in a double
  (`Decimal.isFinite`).
-/

namespace ResultHints.Toml

/-! ## Digits -/

/-- Digits of the given sort, set apart by single underscores. -/
def isSpaced (p : Char → Bool) : List Char → Bool
  | [] => false
  | [c] => p c
  | c :: '_' :: cs => p c && isSpaced p cs
  | c :: cs => p c && isSpaced p cs

/-- A word without its underscores. -/
def unspaced (w : List Char) : List Char := w.filter (· != '_')

/-- The number that digits write in a base, set apart by single underscores. -/
def numeral? (base : Nat) (w : List Char) : Option Nat :=
  if isSpaced (fun c => isHexDigit c && hexDigitValue c < base) w then
    some (valueIn base (unspaced w))
  else none

/-- A word without the sign it may begin with. -/
def unsigned : List Char → List Char
  | '+' :: cs => cs
  | '-' :: cs => cs
  | cs => cs

/-- The integer that digits of base ten write after a sign or without one. -/
def signed? : List Char → Option Int
  | '-' :: cs => (numeral? 10 cs).map fun n => -n
  | cs => (numeral? 10 (unsigned cs)).map Int.ofNat

/-! ## Integers -/

/-- Digits of base ten without a leading zero. -/
def isDecimal (w : List Char) : Bool :=
  isSpaced Char.isDigit w && (w.length == 1 || w.head? != some '0')

/-- The integer that a word writes in any base. -/
def integer? : List Char → Option Int
  | '0' :: 'x' :: cs => (numeral? 16 cs).map Int.ofNat
  | '0' :: 'o' :: cs => (numeral? 8 cs).map Int.ofNat
  | '0' :: 'b' :: cs => (numeral? 2 cs).map Int.ofNat
  | w => if isDecimal (unsigned w) then signed? w else none

/-- Whether an integer takes at most 128 bits, with a sign or without. -/
def fitsInteger (n : Int) : Bool := (-n).toNat ≤ Nat.pow 2 127 && n.toNat < Nat.pow 2 128

/-! ## Fractions and exponents -/

/-- A decimal number without a sign: the number that the digits write, times ten to
    the exponent. -/
structure Decimal where
  digits : List Char
  exponent : Int

namespace Decimal

/-- The decimal number that a word writes with a fraction or without, as in `12.50`. -/
def ofPositional? (w : List Char) : Option Decimal :=
  let whole := w.takeWhile (· != '.')
  if !isDecimal whole then none
  else match w.drop whole.length with
    | [] => some ⟨unspaced whole, 0⟩
    | _ :: fraction =>
      if isSpaced Char.isDigit fraction then
        some ⟨unspaced (whole ++ fraction), -(unspaced fraction).length⟩
      else none

/-- Whether a character marks an exponent. -/
def isExponentMark (c : Char) : Bool := c == 'e' || c == 'E'

/-- The decimal number that a word writes with an exponent or without, as in `1.25e+3`. -/
def ofWord? (w : List Char) : Option Decimal := do
  let mantissa := w.takeWhile fun c => !isExponentMark c
  let d ← ofPositional? mantissa
  match w.drop mantissa.length with
  | [] => return d
  | _ :: exponent => return { d with exponent := d.exponent + (← signed? exponent) }

/-- The least number that rounds to infinity in a double: it lies halfway between
    the largest double and the power of two after it. -/
def infinityBound : Nat := Nat.pow 2 1024 - Nat.pow 2 970

/-- Whether a decimal number is below the bound. The bound has 309 digits, so numbers
    are compared only if the place of their first digit is that of the bound. -/
def isFinite (d : Decimal) : Bool :=
  let digits := d.digits.dropWhile (· == '0')
  let place := digits.length + d.exponent
  digits.isEmpty || place < 309 ||
    (place == 309 &&
      decimalValue digits * Nat.pow 10 (309 - digits.length) <
        infinityBound * Nat.pow 10 (digits.length - 309))

end Decimal

/-- A number with a fraction, an exponent or both that is not too large, or one of
    the special ones. -/
def isFloat (w : List Char) : Bool :=
  let w := unsigned w
  w == ['i', 'n', 'f'] || w == ['n', 'a', 'n'] ||
    (w.any (fun c => c == '.' || Decimal.isExponentMark c) &&
      (Decimal.ofWord? w).any Decimal.isFinite)

/-- A number that is not too large. -/
def isNumber (w : List Char) : Bool := (integer? w).any fitsInteger || isFloat w

end ResultHints.Toml
