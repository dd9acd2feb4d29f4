import Orphans.Decimal.Binary64

/-! The time that a run took. -/

set_option autoImplicit false

namespace Orphans.Report

def nanosecondsPerSecond : Nat := Nat.pow 10 9

/-- A number of nanoseconds in seconds: the whole seconds plus the rest. -/
def seconds (nanoseconds : Nat) : Size :=
  (Size.ofNat (nanoseconds / nanosecondsPerSecond)).add
    ((Size.ofNat (nanoseconds % nanosecondsPerSecond)).divide (.ofNat nanosecondsPerSecond))

end Orphans.Report
