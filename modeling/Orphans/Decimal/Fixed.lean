import Orphans.Decimal.Binary64
import Orphans.Text.Numeral

/-! Decimals with a fixed number of places. -/

set_option autoImplicit false

namespace Orphans.Decimal

def placed (places units : Nat) : List Char :=
  let digits := Text.decimalDigits units
  let padded := List.replicate (places + 1 - digits.length) '0' ++ digits
  padded.take (padded.length - places) ++ '.' :: padded.drop (padded.length - places)

/-- The exact value rounded to so many places, a tie to the even neighbour. -/
def fixed (places : Nat) (size : Size) : List Char :=
  match size.toRatio? with
  | some (numerator, denominator) =>
    placed places (Size.divideToEven (numerator * Nat.pow 10 places) denominator)
  | none => ['i', 'n', 'f']

end Orphans.Decimal
