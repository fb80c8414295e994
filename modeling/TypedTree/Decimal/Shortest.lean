/-! The shortest decimal that reads back as a given binary real. A real is taken apart into a whole
number times a power of two; the decimals that round to it form an interval, and the coarsest decimal
grid with a point in that interval gives the digits. -/

namespace TypedTree.Decimal

/-- What a 64-bit real stands for. A finite one is `mantissa · 2 ^ exponent`, up to its sign. -/
inductive Parts where
  | nan
  | infinite (negative : Bool)
  | finite (negative : Bool) (mantissa : Nat) (exponent : Int)
deriving DecidableEq

def leadingBit : Nat := 0x10000000000000

def partsOfBits (bits : Nat) : Parts :=
  let negative := (bits >>> 63) % 2 == 1
  let biased : Nat := (bits >>> 52) % 2048
  let fraction : Nat := bits % leadingBit
  if biased = 2047 then (if fraction = 0 then .infinite negative else .nan)
  else if biased = 0 then .finite negative fraction (-1074)
  else .finite negative (leadingBit + fraction) ((biased : Int) - 1075)

def parts (real : Float) : Parts := partsOfBits real.toBits.toNat

structure Digits where
  significand : Nat
  exponent : Int
deriving DecidableEq

/-- Three fractions over one positive denominator: a value and the ends of the interval of numbers
that round to it. A closed interval has its ends. -/
structure Interval where
  low : Nat
  value : Nat
  high : Nat
  denominator : Nat
  closed : Bool

/-- The numbers that round to `mantissa · 2 ^ exponent`. Below a power of two the neighbours are
half as far away; the ends belong to the interval when the mantissa is even. -/
def Interval.around (mantissa : Nat) (exponent : Int) : Interval :=
  let scale := 1 <<< (exponent - 2).toNat
  let below := if mantissa = leadingBit ∧ exponent ≠ -1074 then 1 else 2
  { low := (4 * mantissa - below) * scale
    value := 4 * mantissa * scale
    high := (4 * mantissa + 2) * scale
    denominator := 1 <<< (2 - exponent).toNat
    closed := mantissa % 2 == 0 }

def magnitude (numerator denominator : Nat) : Int :=
  if denominator ≤ numerator then ((Nat.toDigits 10 (numerator / denominator)).length : Int) - 1
  else -((Nat.toDigits 10 ((denominator - 1) / numerator)).length : Int)

def powerOfTen (exponent : Int) : Nat := Nat.pow 10 exponent.toNat

def Interval.contains (interval : Interval) (grid : Int) (units : Nat) : Bool :=
  let point := units * interval.denominator * powerOfTen grid
  let scale := powerOfTen (-grid)
  if interval.closed then interval.low * scale ≤ point && point ≤ interval.high * scale
  else interval.low * scale < point && point < interval.high * scale

/-- The point of the grid of multiples of `10 ^ grid` that lies in the interval next to its value:
the nearer of two, and of two equally near ones the even one. -/
def Interval.onGrid? (interval : Interval) (grid : Int) : Option Nat :=
  let numerator := interval.value * powerOfTen (-grid)
  let unit := interval.denominator * powerOfTen grid
  let below := numerator / unit
  match interval.contains grid below, interval.contains grid (below + 1) with
  | true, false => some below
  | false, true => some (below + 1)
  | false, false => none
  | true, true =>
    let past := numerator - below * unit
    let missing := (below + 1) * unit - numerator
    if past < missing ∨ (past = missing ∧ below % 2 = 0) then some below else some (below + 1)

theorem Interval.contains_of_onGrid? {interval : Interval} {grid : Int} {units : Nat}
    (found : interval.onGrid? grid = some units) : interval.contains grid units = true := by
  unfold onGrid? at found
  dsimp only at found
  split at found
  next below _ => rw [← Option.some.inj found]; exact below
  next _ above => rw [← Option.some.inj found]; exact above
  next => nomatch found
  next below above =>
    split at found
    next => rw [← Option.some.inj found]; exact below
    next => rw [← Option.some.inj found]; exact above

def Digits.trim : Nat → Digits → Digits
  | 0, digits => digits
  | fuel + 1, digits =>
    if digits.significand % 10 = 0 then trim fuel ⟨digits.significand / 10, digits.exponent + 1⟩
    else digits

/-- The fewest digits in the interval, nearest to its value. Seventeen digits are always enough. -/
def Interval.shortest (interval : Interval) : Digits :=
  let leading := magnitude interval.value interval.denominator
  let grids := (List.range 17).map fun (count : Nat) => leading - count
  match grids.findSome? fun grid => (interval.onGrid? grid).map fun units => Digits.mk units grid with
  | some digits => digits.trim 17
  | none => ⟨interval.value / interval.denominator, 0⟩

def shortest (mantissa : Nat) (exponent : Int) : Digits :=
  (Interval.around mantissa exponent).shortest

end TypedTree.Decimal
