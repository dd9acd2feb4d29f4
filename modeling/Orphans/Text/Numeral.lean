/-! Numerals: digits and their values. -/

set_option autoImplicit false

namespace Orphans.Text

/-- The value of an ASCII digit in a base up to sixteen; letters may have either case. -/
def digitValue? (base : Nat) (c : Char) : Option Nat :=
  let value :=
    if '0' ≤ c ∧ c ≤ '9' then c.toNat - '0'.toNat
    else if 'a' ≤ c ∧ c ≤ 'f' then c.toNat - 'a'.toNat + 10
    else if 'A' ≤ c ∧ c ≤ 'F' then c.toNat - 'A'.toNat + 10
    else base
  if value < base then some value else none

def isHexDigit (c : Char) : Bool := (digitValue? 16 c).isSome

/-- The number that digits spell in a base; a character that is no digit counts as zero. -/
def ofDigits (base : Nat) (digits : List Char) : Nat :=
  digits.foldl (fun value c => value * base + (digitValue? base c).getD 0) 0

def decimalDigits (value : Nat) : List Char := Nat.toDigits 10 value

def hexDigits (width value : Nat) : List Char :=
  let digits := Nat.toDigits 16 value
  List.replicate (width - digits.length) '0' ++ digits

/-- The character with a code that four hexadecimal digits give; surrogate halves give none. -/
def scalar? (code : Nat) : Option Char :=
  if code.isValidChar then some (Char.ofNat code) else none

end Orphans.Text
