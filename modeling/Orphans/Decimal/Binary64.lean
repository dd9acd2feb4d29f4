/-! Binary numbers of double precision, by exact arithmetic on naturals.

A size is a mantissa below 2 ^ 53 times a power of two, or infinity. Every operation computes the exact
result as a fraction and rounds it once, to the nearest size, ties to the even mantissa.
-/

set_option autoImplicit false

namespace Orphans

inductive Size where
  | finite (mantissa : Nat) (exponent : Int)
  | infinite
  deriving DecidableEq, Repr

namespace Size

def precision : Nat := 53

def leastExponent : Int := -1074

def greatestExponent : Int := 971

def zero : Size := .finite 0 leastExponent

def divideToEven (numerator denominator : Nat) : Nat :=
  let quotient := numerator / denominator
  let twice := 2 * (numerator % denominator)
  if twice < denominator then quotient
  else if denominator < twice then quotient + 1
  else quotient + quotient % 2

def unscale (numerator denominator : Nat) (exponent : Int) : Nat × Nat :=
  if 0 ≤ exponent then (numerator, denominator * Nat.pow 2 exponent.toNat)
  else (numerator * Nat.pow 2 (-exponent).toNat, denominator)

/-- The exponent at which the fraction has a full mantissa, or the least exponent. -/
def exponentOf (numerator denominator : Nat) : Int :=
  let guess := (numerator.log2 : Int) - denominator.log2 - (precision - 1 : Nat)
  let scaled := unscale numerator denominator guess
  let full := if scaled.1 < scaled.2 * Nat.pow 2 (precision - 1) then guess - 1 else guess
  max full leastExponent

def ofRatio (numerator denominator : Nat) : Size :=
  if numerator = 0 then zero
  else
    let exponent := exponentOf numerator denominator
    let scaled := unscale numerator denominator exponent
    let mantissa := divideToEven scaled.1 scaled.2
    let rounded :=
      if mantissa = Nat.pow 2 precision then (Nat.pow 2 (precision - 1), exponent + 1) else (mantissa, exponent)
    if greatestExponent < rounded.2 then .infinite else .finite rounded.1 rounded.2

def ofNat (value : Nat) : Size := ofRatio value 1

/-- The size nearest to `significand * 10 ^ exponent`. Far outside the range the answer is known without
the power of ten. -/
def ofDecimal (significand : Nat) (exponent : Int) : Size :=
  let place := exponent + (Nat.toDigits 10 significand).length
  if significand = 0 then zero
  else if 310 < place then .infinite
  else if place < -330 then zero
  else if 0 ≤ exponent then ofNat (significand * Nat.pow 10 exponent.toNat)
  else ofRatio significand (Nat.pow 10 (-exponent).toNat)

def toRatio? : Size → Option (Nat × Nat)
  | .finite mantissa exponent => some (unscale mantissa 1 (-exponent))
  | .infinite => none

def multiply (left right : Size) : Size :=
  match left.toRatio?, right.toRatio? with
  | some (a, b), some (c, d) => ofRatio (a * c) (b * d)
  | _, _ => .infinite

def divide (left right : Size) : Size :=
  match left.toRatio?, right.toRatio? with
  | some (a, b), some (c, d) => ofRatio (a * d) (b * c)
  | _, _ => .infinite

def add (left right : Size) : Size :=
  match left.toRatio?, right.toRatio? with
  | some (a, b), some (c, d) => ofRatio (a * d + c * b) (b * d)
  | _, _ => .infinite

def bits : Size → Nat
  | .finite mantissa exponent =>
    if mantissa < Nat.pow 2 (precision - 1) then mantissa
    else (exponent - leastExponent + 1).toNat * Nat.pow 2 (precision - 1) + (mantissa - Nat.pow 2 (precision - 1))
  | .infinite => 0x7ff * Nat.pow 2 (precision - 1)

end Size

structure Binary64 where
  negative : Bool
  size : Size
  deriving DecidableEq, Repr

namespace Binary64

def bits (value : Binary64) : Nat := (if value.negative then Nat.pow 2 63 else 0) + value.size.bits

end Binary64

end Orphans
