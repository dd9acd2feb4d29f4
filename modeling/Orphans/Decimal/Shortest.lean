import Orphans.Decimal.Binary64
import Orphans.Text.Numeral

/-! The shortest decimal that reads back as a given double.

The decimals that round to a size fill an interval around it, whose ends belong to it if the mantissa is
even. For one digit, two digits and so on, the two neighbours of the size on that decimal grid are tested;
the first grid with a hit gives the digits, and of two hits the nearer one is taken.
-/

set_option autoImplicit false

namespace Orphans.Decimal

structure Interval where
  low : Nat
  value : Nat
  high : Nat
  denominator : Nat
  closed : Bool

namespace Interval

/-- The interval of the decimals that round to a size. Below a power of two it is shorter. -/
def around (mantissa : Nat) (exponent : Int) : Interval :=
  let value := 4 * mantissa
  let narrow := mantissa = Nat.pow 2 (Size.precision - 1) ∧ Size.leastExponent < exponent
  let scale (quarters : Nat) : Nat × Nat := Size.unscale quarters 1 (2 - exponent)
  ⟨(scale (if narrow then value - 1 else value - 2)).1, (scale value).1, (scale (value + 2)).1,
    (scale value).2, mantissa % 2 = 0⟩

def gridPoint (interval : Interval) (power : Int) (count : Nat) : Nat × Nat :=
  if 0 ≤ power then (count * Nat.pow 10 power.toNat * interval.denominator, 1)
  else (count * interval.denominator, Nat.pow 10 (-power).toNat)

def contains (interval : Interval) (power : Int) (count : Nat) : Bool :=
  let (numerator, denominator) := interval.gridPoint power count
  let low := interval.low * denominator
  let high := interval.high * denominator
  if interval.closed then low ≤ numerator && numerator ≤ high
  else low < numerator && numerator < high

def countBelow (interval : Interval) (power : Int) : Nat :=
  if 0 ≤ power then interval.value / (interval.denominator * Nat.pow 10 power.toNat)
  else interval.value * Nat.pow 10 (-power).toNat / interval.denominator

def upperIsNearer (interval : Interval) (power : Int) (count : Nat) : Bool :=
  let (below, denominator) := interval.gridPoint power count
  let (above, _) := interval.gridPoint power (count + 1)
  let value := interval.value * denominator
  if above - value = value - below then count % 2 = 1 else above - value < value - below

def hit? (interval : Interval) (power : Int) : Option Nat :=
  let count := interval.countBelow power
  match interval.contains power count, interval.contains power (count + 1) with
  | true, true => some (if interval.upperIsNearer power count then count + 1 else count)
  | true, false => some count
  | false, true => some (count + 1)
  | false, false => none

def place (interval : Interval) : Int :=
  let guess : Int :=
    (Text.decimalDigits interval.value).length - (Text.decimalDigits interval.denominator).length
  if interval.countBelow guess = 0 then guess else guess + 1

def search (interval : Interval) : Nat → Int → Nat × Int
  | 0, power => (interval.countBelow power, power)
  | steps + 1, power =>
    match interval.hit? power with
    | some count => (count, power)
    | none => search interval steps (power - 1)

end Interval

def stripZeros (digits : List Char) (power : Int) : List Char × Int :=
  let kept := (digits.reverse.dropWhile (· == '0')).reverse
  (kept, power + (digits.length - kept.length : Nat))

/-- The fewest digits that read back, with the power of ten of the last one. -/
def shortest (mantissa : Nat) (exponent : Int) : List Char × Int :=
  let interval := Interval.around mantissa exponent
  let (count, power) := interval.search 17 (interval.place - 1)
  stripZeros (Text.decimalDigits count) power

/-- Numbers of at most this many digits in front of the point are written without an exponent. -/
def greatestPlace : Int := 16

def mostLeadingZeros : Int := 5

def exponentText (exponent : Int) : List Char :=
  if exponent < 0 then '-' :: Text.decimalDigits exponent.natAbs
  else Text.decimalDigits exponent.natAbs

/-- Digits and a power of ten as text: positional in a middle range, scientific outside of it. -/
def layout (digits : List Char) (power : Int) : List Char :=
  let place := digits.length + power
  if 0 ≤ power ∧ place ≤ greatestPlace then
    digits ++ List.replicate power.toNat '0' ++ ['.', '0']
  else if 0 < place ∧ place ≤ greatestPlace then
    digits.take place.toNat ++ '.' :: digits.drop place.toNat
  else if -mostLeadingZeros < place ∧ place ≤ 0 then
    ['0', '.'] ++ List.replicate (-place).toNat '0' ++ digits
  else
    (match digits with
      | first :: second :: rest => first :: '.' :: second :: rest
      | few => few) ++ 'e' :: exponentText (place - 1)

def render : Size → List Char
  | .infinite => ['i', 'n', 'f']
  | .finite mantissa exponent =>
    if mantissa = 0 then ['0', '.', '0']
    else
      let (digits, power) := shortest mantissa exponent
      layout digits power

end Orphans.Decimal
