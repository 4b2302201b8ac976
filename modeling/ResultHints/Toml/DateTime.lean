import ResultHints.Text.Digit

/-!
# Dates and times in TOML

Which words are dates (`isDate`), times of day (`isTime`) or both (`isDateTime`).
Dates are days of the calendar, and times may leave out the seconds.
-/

namespace ResultHints.Toml

/-- The number that some digits write. -/
def digits? (w : List Char) : Option Nat :=
  if !w.isEmpty && w.all Char.isDigit then some (decimalValue w) else none

/-- The number that some digits write, if it lies between two bounds. -/
def isWithin (lo hi : Nat) (w : List Char) : Bool := (digits? w).any fun n => lo ≤ n && n ≤ hi

/-- The days of a month. -/
def daysIn (year month : Nat) : Nat :=
  if month = 2 then
    if year % 4 = 0 ∧ (year % 100 ≠ 0 ∨ year % 400 = 0) then 29 else 28
  else if month = 4 ∨ month = 6 ∨ month = 9 ∨ month = 11 then 30
  else 31

/-- A date, as in `1979-05-27`. -/
def isDate : List Char → Bool
  | [y₁, y₂, y₃, y₄, '-', m₁, m₂, '-', d₁, d₂] =>
    match digits? [y₁, y₂, y₃, y₄], digits? [m₁, m₂] with
    | some year, some month =>
      1 ≤ month && month ≤ 12 && isWithin 1 (daysIn year month) [d₁, d₂]
    | _, _ => false
  | _ => false

/-- The seconds of a time of day, as in `:00` or `:00.25`. There may be none. -/
def isSeconds : List Char → Bool
  | [] => true
  | [':', s₁, s₂] => isWithin 0 60 [s₁, s₂]
  | ':' :: s₁ :: s₂ :: '.' :: fraction => isWithin 0 60 [s₁, s₂] && (digits? fraction).isSome
  | _ => false

/-- A time of day, as in `07:32`, `07:32:00` or `07:32:00.25`. -/
def isTime : List Char → Bool
  | h₁ :: h₂ :: ':' :: m₁ :: m₂ :: seconds =>
    isWithin 0 23 [h₁, h₂] && isWithin 0 59 [m₁, m₂] && isSeconds seconds
  | _ => false

/-- An offset from universal time, as in `Z` or `-07:00`. -/
def isOffset : List Char → Bool
  | ['Z'] | ['z'] => true
  | [sign, h₁, h₂, ':', m₁, m₂] =>
    (sign == '+' || sign == '-') && isWithin 0 23 [h₁, h₂] && isWithin 0 59 [m₁, m₂]
  | _ => false

/-- A time of day with an offset or without. -/
def isTimeWithOffset (w : List Char) : Bool :=
  let time := w.takeWhile fun c => c.isDigit || c == ':' || c == '.'
  isTime time && (time.length == w.length || isOffset (w.drop time.length))

/-- A date with a time after it. -/
def isDateTime (w : List Char) : Bool :=
  isDate (w.take 10) && match w.drop 10 with
    | c :: time => (c == 'T' || c == 't' || c == ' ') && isTimeWithOffset time
    | [] => false

end ResultHints.Toml
