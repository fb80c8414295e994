/-! Rows of digits and the numbers that they stand for. -/

namespace TypedTree

def isDigit (char : Char) : Bool := '0' ≤ char && char ≤ '9'

def hexDigit? (char : Char) : Option Nat :=
  if isDigit char then some (char.toNat - '0'.toNat)
  else if 'a' ≤ char ∧ char ≤ 'f' then some (char.toNat - 'a'.toNat + 10)
  else if 'A' ≤ char ∧ char ≤ 'F' then some (char.toNat - 'A'.toNat + 10)
  else none

def valueInBase (base : Nat) (digits : List Char) : Nat :=
  digits.foldl (fun value digit => base * value + (hexDigit? digit).getD 0) 0

def digitsValue (digits : List Char) : Nat := valueInBase 10 digits

def fitsInt64 (value : Int) : Bool := Int64.minValue.toInt ≤ value && value ≤ Int64.maxValue.toInt

/-- The real nearest to `mantissa · 10 ^ exponent`. Powers far outside the range of reals are not
computed. -/
def nearestReal (mantissa : Nat) (exponent : Int) : Float :=
  let power := exponent + (Nat.toDigits 10 mantissa).length
  if mantissa = 0 ∨ power < -330 then 0
  else if 330 < power then 1 / 0
  else Float.ofScientific mantissa (decide (exponent < 0)) exponent.natAbs

end TypedTree
