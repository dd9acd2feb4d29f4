import Orphans.Decimal.Binary64
import Orphans.Text.Numeral
import Orphans.Toml.Value

/-! TOML numbers, truth values and moments in time. -/

set_option autoImplicit false

namespace Orphans.Toml

/-- Digits in which single underscores may stand between two digits, with the underscores left out. -/
def digitRun (isDigit : Char → Bool) : List Char → List Char × List Char
  | '_' :: c :: rest =>
    if isDigit c then
      let (digits, behind) := digitRun isDigit rest
      (c :: digits, behind)
    else ([], '_' :: c :: rest)
  | c :: rest =>
    if isDigit c then
      let (digits, behind) := digitRun isDigit rest
      (c :: digits, behind)
    else ([], c :: rest)
  | [] => ([], [])

def digits (isDigit : Char → Bool) : List Char → Read (List Char)
  | [] => none
  | c :: rest =>
    if isDigit c then
      let (more, behind) := digitRun isDigit rest
      some (c :: more, behind)
    else none

def wholeDigits : List Char → Read (List Char)
  | '0' :: rest => some (['0'], rest)
  | text => digits Char.isDigit text

def splitSign : List Char → Bool × List Char
  | '-' :: rest => (true, rest)
  | '+' :: rest => (false, rest)
  | text => (false, text)

def consumed (text behind : List Char) : String := .ofList (text.take (text.length - behind.length))

def places : List Char → Read (List Char)
  | '.' :: rest => digits Char.isDigit rest
  | _ => none

def exponent : List Char → Read Int
  | c :: rest =>
    if c = 'e' ∨ c = 'E' then
      let (negative, rest) := splitSign rest
      (digits Char.isDigit rest).map fun (found, behind) =>
        let value : Int := Text.ofDigits 10 found
        (if negative then -value else value, behind)
    else none
  | [] => none

/-- A fractional number. Numbers that round to positive infinity are refused. -/
def float (text : List Char) : Option (Value × List Char) := do
  let (negative, unsigned) := splitSign text
  let (whole, rest) ← wholeDigits unsigned
  let (fraction, rest, hasPlaces) := match places rest with
    | some (found, behind) => (found, behind, true)
    | none => ([], rest, false)
  let (power, rest, hasExponent) := match exponent rest with
    | some (found, behind) => (found, behind, true)
    | none => (0, rest, false)
  if !hasPlaces && !hasExponent then none
  else
    let size := Size.ofDecimal (Text.ofDigits 10 (whole ++ fraction)) (power - fraction.length)
    if size = .infinite && !negative then none else some (.float (consumed text rest), rest)

def specialFloat (text : List Char) : Read Value :=
  let unsigned := (splitSign text).2
  let read (word : List Char) : Read Value :=
    (word.isPrefixOf? unsigned).map fun rest => (.float (consumed text rest), rest)
  (read ['i', 'n', 'f']).or (read ['n', 'a', 'n'])

def integerBound : Int := 0x8000000000000000

/-- Integers fit 64 bits with a sign. -/
def integerValue (value : Int) : Option Value :=
  if -integerBound ≤ value ∧ value < integerBound then some (.integer value) else none

def basedInteger (base : Nat) (text : List Char) : Option (Value × List Char) := do
  let (found, rest) ← digits (fun c => (Text.digitValue? base c).isSome) text
  return (← integerValue (Text.ofDigits base found), rest)

def integer : List Char → Option (Value × List Char)
  | '0' :: 'x' :: rest => basedInteger 16 rest
  | '0' :: 'o' :: rest => basedInteger 8 rest
  | '0' :: 'b' :: rest => basedInteger 2 rest
  | text => do
    let (negative, unsigned) := splitSign text
    let (whole, rest) ← wholeDigits unsigned
    let magnitude : Int := Text.ofDigits 10 whole
    return (← integerValue (if negative then -magnitude else magnitude), rest)

/-- A number of exactly `width` digits, at most `greatest`. -/
def fixedNumber (width least greatest : Nat) (text : List Char) : Read Nat :=
  let found := text.take width
  let value := Text.ofDigits 10 found
  if found.length = width ∧ found.all Char.isDigit ∧ least ≤ value ∧ value ≤ greatest then
    some (value, text.drop width)
  else none

def character? (expected : Char) : List Char → Option (List Char)
  | [] => none
  | c :: rest => if c = expected then some rest else none

def isLeapYear (year : Nat) : Bool := year % 4 == 0 && (year % 100 != 0 || year % 400 == 0)

def daysIn (year month : Nat) : Nat :=
  if month = 2 then (if isLeapYear year then 29 else 28)
  else if month = 4 ∨ month = 6 ∨ month = 9 ∨ month = 11 then 30
  else 31

def date? (text : List Char) : Option (List Char) := do
  let (year, rest) ← fixedNumber 4 0 9999 text
  let (month, rest) ← fixedNumber 2 1 12 (← character? '-' rest)
  let (_, rest) ← fixedNumber 2 1 (daysIn year month) (← character? '-' rest)
  return rest

def skipSecondFraction : List Char → List Char
  | '.' :: c :: rest => if c.isDigit then rest.dropWhile Char.isDigit else '.' :: c :: rest
  | text => text

def time? (text : List Char) : Option (List Char) := do
  let (_, rest) ← fixedNumber 2 0 23 text
  let (_, rest) ← fixedNumber 2 0 59 (← character? ':' rest)
  let (_, rest) ← fixedNumber 2 0 60 (← character? ':' rest)
  return skipSecondFraction rest

def skipOffset : List Char → List Char
  | 'Z' :: rest | 'z' :: rest => rest
  | c :: rest =>
    if c = '+' ∨ c = '-' then
      let behind : Option (List Char) := do
        let (_, rest) ← fixedNumber 2 0 23 rest
        let (_, rest) ← fixedNumber 2 0 59 (← character? ':' rest)
        return rest
      behind.getD (c :: rest)
    else c :: rest
  | [] => []

def skipTimeOfDay : List Char → List Char
  | c :: rest =>
    if c = 'T' ∨ c = 't' ∨ c = ' ' then ((time? rest).map skipOffset).getD (c :: rest) else c :: rest
  | [] => []

def moment (text : List Char) : Read Value :=
  ((date? text).map skipTimeOfDay).or (time? text) |>.map fun rest =>
    (.moment (consumed text rest), rest)

def fixedWord (word : List Char) (value : Value) (text : List Char) : Read Value :=
  (word.isPrefixOf? text).map fun rest => (value, rest)

def scalar (text : List Char) : Read Value :=
  (moment text).or <| (float text).or <| (specialFloat text).or <| (integer text).or <|
    (fixedWord ['t', 'r', 'u', 'e'] (.boolean true) text).or <|
      fixedWord ['f', 'a', 'l', 's', 'e'] (.boolean false) text

end Orphans.Toml
