import TypedTree.Decimal.Shortest
/-! How the shortest decimal of a real is laid out as text: rendered trees never use an exponent,
JSON numbers use one outside a range around one. -/

namespace TypedTree.Decimal

structure Layout where
  positional : Int → Bool
  wholeSuffix : String

def Layout.plain : Layout := { positional := fun _ => true, wholeSuffix := "" }

/-- JSON writes reals from `10 ^ -5` up to `10 ^ 16` in full, always with a fraction. -/
def Layout.json : Layout :=
  { positional := fun power => decide (-5 ≤ power ∧ power < 16), wholeSuffix := ".0" }

def zeros (count : Nat) : String := String.ofList (List.replicate count '0')

def pointed (layout : Layout) (digits : List Char) (whole : Int) : String :=
  if whole ≤ 0 then "0." ++ zeros (-whole).toNat ++ String.ofList digits
  else if digits.length ≤ whole.toNat then
    String.ofList digits ++ zeros (whole.toNat - digits.length) ++ layout.wholeSuffix
  else String.ofList (digits.take whole.toNat) ++ "." ++ String.ofList (digits.drop whole.toNat)

def scientific (digits : List Char) (power : Int) : String :=
  let mantissa := match digits with
    | [] => "0"
    | [digit] => String.ofList [digit]
    | digit :: rest => String.ofList (digit :: '.' :: rest)
  mantissa ++ (if power < 0 then "e-" else "e+") ++ toString power.natAbs

def Layout.write (layout : Layout) (decimal : Digits) : String :=
  let digits := Nat.toDigits 10 decimal.significand
  let power := decimal.exponent + digits.length - 1
  if layout.positional power then pointed layout digits (power + 1) else scientific digits power

def Layout.writeFinite (layout : Layout) (negative : Bool) (mantissa : Nat) (exponent : Int) : String :=
  (if negative then "-" else "") ++
    (if mantissa = 0 then "0" ++ layout.wholeSuffix else layout.write (shortest mantissa exponent))

def plain (real : Float) : String :=
  match parts real with
  | .nan => "NaN"
  | .infinite negative => if negative then "-inf" else "inf"
  | .finite negative mantissa exponent => Layout.plain.writeFinite negative mantissa exponent

/-- A real as a JSON number; those that JSON has no number for are written `null`. -/
def json (real : Float) : String :=
  match parts real with
  | .nan | .infinite _ => "null"
  | .finite negative mantissa exponent => Layout.json.writeFinite negative mantissa exponent

end TypedTree.Decimal
