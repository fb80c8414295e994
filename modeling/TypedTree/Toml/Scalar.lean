import TypedTree.Toml
import TypedTree.Decimal.Numeral
/-! Numbers, dates and times as TOML reads them. -/

namespace TypedTree.Toml

def readGroups (accepts : Char → Bool) : List Char → Option (List Char × List Char)
  | [] => some ([], [])
  | ['_'] => none
  | '_' :: digit :: chars =>
    if accepts digit then (readGroups accepts chars).map fun (digits, rest) => (digit :: digits, rest)
    else none
  | char :: chars =>
    if accepts char then (readGroups accepts chars).map fun (digits, rest) => (char :: digits, rest)
    else some ([], char :: chars)

def readDigits (accepts : Char → Bool) : List Char → Option (List Char × List Char)
  | [] => none
  | char :: chars =>
    if accepts char then (readGroups accepts chars).map fun (digits, rest) => (char :: digits, rest)
    else none

def readWhole : List Char → Option (List Char × List Char)
  | '0' :: chars => some (['0'], chars)
  | chars => readDigits isDigit chars

def readFraction : List Char → Option (Option (List Char) × List Char)
  | '.' :: chars => (readDigits isDigit chars).map fun (digits, rest) => (some digits, rest)
  | chars => some (none, chars)

def readExponent : List Char → Option (Option Int × List Char)
  | [] => some (none, [])
  | mark :: chars =>
    if mark = 'e' ∨ mark = 'E' then
      let (negative, chars) := match chars with
        | '-' :: chars => (true, chars)
        | '+' :: chars => (false, chars)
        | chars => (false, chars)
      (readDigits isDigit chars).map fun (digits, rest) =>
        let power : Int := digitsValue digits
        (some (if negative then -power else power), rest)
    else some (none, mark :: chars)

def readInBase (base : Nat) (chars : List Char) : Option (Toml × List Char) := do
  let (digits, rest) ← readDigits (fun char => ((hexDigit? char).getD base) < base) chars
  let value := valueInBase base digits
  if fitsInt64 value then some (.int value, rest) else none

/-- A number behind its sign. A real that is too large is none, though one that is too small is
negative infinity. -/
def readUnsigned (negative : Bool) (chars : List Char) : Option (Toml × List Char) :=
  match chars with
  | 'i' :: 'n' :: 'f' :: rest => some (.real (if negative then -(1 / 0) else 1 / 0), rest)
  | 'n' :: 'a' :: 'n' :: rest => some (.real (if negative then -(0 / 0) else 0 / 0), rest)
  | chars => do
    let (whole, chars) ← readWhole chars
    let (fraction, chars) ← readFraction chars
    let (exponent, rest) ← readExponent chars
    if fraction.isNone && exponent.isNone then
      let magnitude : Int := digitsValue whole
      let value := if negative then -magnitude else magnitude
      if fitsInt64 value then some (.int value, rest) else none
    else
      let digits := fraction.getD []
      let real := nearestReal (digitsValue (whole ++ digits)) (exponent.getD 0 - digits.length)
      if negative then some (.real (-real), rest)
      else if real.isInf then none
      else some (.real real, rest)

def readNumber (chars : List Char) : Option (Toml × List Char) :=
  match chars with
  | '0' :: 'x' :: chars => readInBase 16 chars
  | '0' :: 'o' :: chars => readInBase 8 chars
  | '0' :: 'b' :: chars => readInBase 2 chars
  | '-' :: chars => readUnsigned true chars
  | '+' :: chars => readUnsigned false chars
  | chars => readUnsigned false chars

def readField (count : Nat) (chars : List Char) : Option (Nat × List Char) :=
  let digits := chars.take count
  if digits.length = count ∧ digits.all isDigit then some (digitsValue digits, chars.drop count) else none

def readBounded (least greatest : Nat) (chars : List Char) : Option (List Char) := do
  let (value, rest) ← readField 2 chars
  if least ≤ value ∧ value ≤ greatest then some rest else none

def expect (expected : Char) : List Char → Option (List Char)
  | [] => none
  | char :: chars => if char = expected then some chars else none

def daysInMonth (year month : Nat) : Nat :=
  if month = 2 then
    if year % 4 = 0 ∧ (year % 100 ≠ 0 ∨ year % 400 = 0) then 29 else 28
  else if [4, 6, 9, 11].contains month then 30
  else 31

def skipDate (chars : List Char) : Option (List Char) := do
  let (year, chars) ← readField 4 chars
  let chars ← expect '-' chars
  let (month, chars) ← readField 2 chars
  if month = 0 ∨ 12 < month then none
  else do
    let chars ← expect '-' chars
    readBounded 1 (daysInMonth year month) chars

def skipTime (chars : List Char) : Option (List Char) := do
  let chars ← readBounded 0 23 chars
  let chars ← expect ':' chars
  let chars ← readBounded 0 59 chars
  let chars ← expect ':' chars
  let chars ← readBounded 0 60 chars
  match chars with
  | '.' :: digit :: chars => if isDigit digit then some (chars.dropWhile isDigit) else none
  | ['.'] => none
  | chars => some chars

def skipOffset : List Char → Option (List Char)
  | [] => some []
  | char :: chars =>
    if char = 'Z' ∨ char = 'z' then some chars
    else if char = '+' ∨ char = '-' then do
      let chars ← readBounded 0 23 chars
      let chars ← expect ':' chars
      readBounded 0 59 chars
    else some (char :: chars)

def startsTime : List Char → Bool
  | first :: second :: ':' :: _ => isDigit first && isDigit second
  | _ => false

def startsDate (chars : List Char) : Bool :=
  (readField 4 chars).any fun (_, rest) => rest.head? = some '-'

def skipMoment (chars : List Char) : Option (List Char) := do
  let rest ← skipDate chars
  match rest with
  | [] => some []
  | separator :: time =>
    if (separator = 'T' ∨ separator = 't' ∨ separator = ' ') ∧ startsTime time then
      skipOffset (← skipTime time)
    else some rest

def readScalar (chars : List Char) : Option (Toml × List Char) :=
  let moment (rest : List Char) : Toml × List Char :=
    (.moment (String.ofList (chars.take (chars.length - rest.length))), rest)
  if startsDate chars then (skipMoment chars).map moment
  else if startsTime chars then (skipTime chars).map moment
  else readNumber chars

end TypedTree.Toml
