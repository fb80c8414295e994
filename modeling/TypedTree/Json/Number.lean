import TypedTree.Json
import TypedTree.Decimal.Numeral
/-! Numbers as JSON writes them. A number without fraction and exponent that fits in 64 bits is whole;
every other number is the 64-bit real nearest to it. -/

namespace TypedTree.Json

def readDigits (chars : List Char) : Except Fault (List Char × List Char) :=
  match chars.span isDigit with
  | ([], []) => .error .unfinished
  | ([], _ :: _) => .error .malformed
  | (digits, rest) => .ok (digits, rest)

def readWhole (chars : List Char) : Except Fault (List Char × List Char) := do
  let (digits, rest) ← readDigits chars
  if digits.length ≠ 1 ∧ digits.head? = some '0' then .error .malformed else .ok (digits, rest)

def readFraction : List Char → Except Fault (Option (List Char) × List Char)
  | '.' :: chars => do
    let (digits, rest) ← readDigits chars
    return (some digits, rest)
  | chars => .ok (none, chars)

def readExponent (chars : List Char) : Except Fault (Option Int × List Char) :=
  match chars with
  | mark :: chars =>
    if mark = 'e' ∨ mark = 'E' then
      match chars with
      | '-' :: chars => do
        let (digits, rest) ← readDigits chars
        return (some (-(digitsValue digits : Int)), rest)
      | '+' :: chars => do
        let (digits, rest) ← readDigits chars
        return (some (digitsValue digits : Int), rest)
      | chars => do
        let (digits, rest) ← readDigits chars
        return (some (digitsValue digits : Int), rest)
    else .ok (none, mark :: chars)
  | [] => .ok (none, [])

/-- The value of a number that has been taken apart. One beyond the largest real is no value, though
it can be passed over; a zero with a sign is a real. -/
def numberDraft (negative : Bool) (whole : List Char) (fraction : Option (List Char))
    (exponent : Option Int) : Draft :=
  let magnitude := digitsValue whole
  let asReal :=
    let digits := fraction.getD []
    let real := nearestReal (digitsValue (whole ++ digits)) (exponent.getD 0 - digits.length)
    if real.isInf then .broken ⟨.malformed, none⟩ else .real (if negative then -real else real)
  if fraction.isNone && exponent.isNone then
    if negative then
      if 0 < magnitude && fitsInt64 (-magnitude) then .int (-magnitude) else asReal
    else if magnitude < UInt64.size then .int magnitude else asReal
  else asReal

def readNumber (chars : List Char) : Except Fault (Draft × List Char) := do
  let (negative, chars) := match chars with
    | '-' :: chars => (true, chars)
    | chars => (false, chars)
  let (whole, chars) ← readWhole chars
  let (fraction, chars) ← readFraction chars
  let (exponent, chars) ← readExponent chars
  return (numberDraft negative whole fraction exponent, chars)

end TypedTree.Json
