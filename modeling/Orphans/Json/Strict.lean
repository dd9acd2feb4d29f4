import Orphans.Json.Value
import Orphans.Text.Numeral

/-! The reader of strict JSON.

Integers are exact within 64 bits; every other number is a double, computed in one pass: digits are
collected as long as they fit 64 bits, and the collected digits, rounded, are multiplied or divided by a
rounded power of ten. At most 127 containers may be nested.
-/

set_option autoImplicit false

namespace Orphans.Json.Strict

def isSpace (c : Char) : Bool := c == ' ' || c == '\n' || c == '\t' || c == '\r'

def skipSpace (text : List Char) : List Char := text.dropWhile isSpace

def maxDepth : Nat := 127

def significandBound : Nat := Nat.pow 2 64

/-- Collect digits as long as the number stays in bounds: the number, how many digits were taken, and
the text behind them. -/
def collect (significand taken : Nat) : List Char → Nat × Nat × List Char
  | [] => (significand, taken, [])
  | c :: rest =>
    match Text.digitValue? 10 c with
    | none => (significand, taken, c :: rest)
    | some digit =>
      let next := significand * 10 + digit
      if next < significandBound then collect next (taken + 1) rest else (significand, taken, c :: rest)

def maxPower : Nat := 308

def powerOfTen (exponent : Nat) : Size := .ofNat (Nat.pow 10 exponent)

/-- Divide by a power of ten in steps. Three steps take every significand to zero. -/
def scaleDown : Nat → Size → Nat → Size
  | 0, _, _ => .zero
  | fuel + 1, size, places =>
    if places ≤ maxPower then size.divide (powerOfTen places)
    else if size = .zero then .zero
    else scaleDown fuel (size.divide (powerOfTen maxPower)) (places - maxPower)

def scale (significand : Nat) (exponent : Int) : Except Fault Size :=
  let size := Size.ofNat significand
  if exponent < 0 then .ok (scaleDown 5 size (-exponent).toNat)
  else if size = .zero then .ok .zero
  else if (maxPower : Int) < exponent then .error .numberTooLarge
  else
    match size.multiply (powerOfTen exponent.toNat) with
    | .infinite => .error .numberTooLarge
    | product => .ok product

def exponentBound : Nat := Nat.pow 2 31

def exponentDigits (significand : Nat) (start : Int) (rising : Bool) (text : List Char) : Read Size :=
  let digits := text.takeWhile Char.isDigit
  let rest := text.dropWhile Char.isDigit
  let exponent := Text.ofDigits 10 digits
  if digits = [] then .error (faultAt rest)
  else if exponentBound ≤ exponent then
    if significand ≠ 0 ∧ rising then .error .numberTooLarge else .ok (.zero, rest)
  else (scale significand (if rising then start + exponent else start - exponent)).map (·, rest)

def exponentPart (significand : Nat) (start : Int) : List Char → Read Size
  | c :: rest =>
    if c = 'e' ∨ c = 'E' then
      match rest with
      | '+' :: rest => exponentDigits significand start true rest
      | '-' :: rest => exponentDigits significand start false rest
      | rest => exponentDigits significand start true rest
    else (scale significand start).map (·, c :: rest)
  | [] => (scale significand start).map (·, [])

/-- The places behind a decimal point. At least one digit is needed; digits out of bounds are dropped. -/
def fractionPart (significand : Nat) (start : Int) (text : List Char) : Read Size :=
  let (extended, taken, rest) := collect significand 0 text
  let behind := rest.dropWhile Char.isDigit
  if text.head?.any Char.isDigit then exponentPart extended (start - taken) behind
  else .error (faultAt text)

def doublePart (significand : Nat) (start : Int) : List Char → Read Size
  | '.' :: rest => fractionPart significand start rest
  | text => exponentPart significand start text

def asDouble (negative : Bool) (read : Read Size) : Read Value :=
  read.map fun (size, rest) => (.double ⟨negative, size⟩, rest)

/-- An integer: a negative one stays exact down to `-2 ^ 63`, and minus zero is a double. -/
def integerValue (negative : Bool) (magnitude : Nat) : Value :=
  if !negative then .integer magnitude
  else if magnitude = 0 ∨ Nat.pow 2 63 < magnitude then .double ⟨true, .ofNat magnitude⟩
  else .integer (-magnitude)

def number (negative : Bool) (text : List Char) : Read Value :=
  match text with
  | [] => .error .unexpectedEnd
  | first :: second =>
    if !first.isDigit then .error (.unexpected first)
    else if first = '0' ∧ second.head?.any Char.isDigit then .error .badNumber
    else
      let (significand, _, rest) := collect 0 0 text
      match rest with
      | [] => .ok (integerValue negative significand, [])
      | c :: _ =>
        if c.isDigit then
          let dropped := rest.takeWhile Char.isDigit
          asDouble negative (doublePart significand dropped.length (rest.dropWhile Char.isDigit))
        else if c = '.' ∨ c = 'e' ∨ c = 'E' then asDouble negative (doublePart significand 0 rest)
        else .ok (integerValue negative significand, rest)

def hexCode : List Char → Read Nat
  | a :: b :: c :: d :: rest =>
    if [a, b, c, d].all Text.isHexDigit then .ok (Text.ofDigits 16 [a, b, c, d], rest)
    else .error .badEscape
  | _ => .error .unexpectedEnd

def pairCode (high low : Nat) : Nat := 0x10000 + (high - 0xd800) * 0x400 + (low - 0xdc00)

/-- The character of a `\u` escape, the `\u` already taken. A high surrogate needs a low one behind it. -/
def unicodeEscape (text : List Char) : Except Fault (Char × List Char) := do
  let (code, rest) ← hexCode text
  if 0xd800 ≤ code ∧ code ≤ 0xdbff then
    match rest with
    | '\\' :: 'u' :: rest =>
      let (low, rest) ← hexCode rest
      if 0xdc00 ≤ low ∧ low ≤ 0xdfff then return (Char.ofNat (pairCode code low), rest)
      else throw .badEscape
    | _ => throw .badEscape
  else
    match Text.scalar? code with
    | some c => return (c, rest)
    | none => throw .badEscape

def escape : List Char → Read Char
  | '"' :: rest => .ok ('"', rest)
  | '\\' :: rest => .ok ('\\', rest)
  | '/' :: rest => .ok ('/', rest)
  | 'b' :: rest => .ok ('\x08', rest)
  | 'f' :: rest => .ok ('\x0c', rest)
  | 'n' :: rest => .ok ('\n', rest)
  | 'r' :: rest => .ok ('\r', rest)
  | 't' :: rest => .ok ('\t', rest)
  | 'u' :: rest => unicodeEscape rest
  | [] => .error .unexpectedEnd
  | _ => .error .badEscape

def stringBody : Nat → List Char → List Char → Read String
  | 0, _, _ => .error .unexpectedEnd
  | _, _, [] => .error .unexpectedEnd
  | fuel + 1, done, c :: rest =>
    if c = '"' then .ok (.ofList done.reverse, rest)
    else if c = '\\' then
      match escape rest with
      | .ok (escaped, rest) => stringBody fuel (escaped :: done) rest
      | .error fault => .error fault
    else if c < ' ' then .error .lineBreakInString
    else stringBody fuel (c :: done) rest

def string (text : List Char) : Read String := stringBody (text.length + 1) [] text

def fixedWord (ending : List Char) (value : Value) (text : List Char) : Read Value :=
  match ending.isPrefixOf? text with
  | some rest => .ok (value, rest)
  | none => .error (faultAt text)

mutual

/-- A value, with `depth` more containers allowed. Every call spends fuel. -/
def value : Nat → Nat → List Char → Read Value
  | 0, _, _ => .error .unexpectedEnd
  | fuel + 1, depth, text =>
    match skipSpace text with
    | [] => .error .unexpectedEnd
    | c :: rest =>
      if c = 'n' then fixedWord ['u', 'l', 'l'] .null rest
      else if c = 't' then fixedWord ['r', 'u', 'e'] (.boolean true) rest
      else if c = 'f' then fixedWord ['a', 'l', 's', 'e'] (.boolean false) rest
      else if c = '"' then (string rest).map fun (text, rest) => (.string text, rest)
      else if c = '-' then number true rest
      else if c.isDigit then number false (c :: rest)
      else if c = '[' then
        if depth = 0 then .error .nestedTooDeeply
        else
          match skipSpace rest with
          | ']' :: rest => .ok (.array [], rest)
          | rest => elements fuel (depth - 1) [] rest
      else if c = '{' then
        if depth = 0 then .error .nestedTooDeeply
        else
          match skipSpace rest with
          | '}' :: rest => .ok (.object [], rest)
          | rest => members fuel (depth - 1) [] rest
      else .error (.unexpected c)

def elements : Nat → Nat → List Value → List Char → Read Value
  | 0, _, _, _ => .error .unexpectedEnd
  | fuel + 1, depth, done, text =>
    match value fuel depth text with
    | .error fault => .error fault
    | .ok (item, rest) =>
      match skipSpace rest with
      | ',' :: rest => elements fuel depth (item :: done) rest
      | ']' :: rest => .ok (.array (item :: done).reverse, rest)
      | rest => .error (faultAt rest)

def members : Nat → Nat → List (String × Value) → List Char → Read Value
  | 0, _, _, _ => .error .unexpectedEnd
  | fuel + 1, depth, done, text =>
    match skipSpace text with
    | '"' :: rest =>
      match string rest with
      | .error fault => .error fault
      | .ok (key, rest) =>
        match skipSpace rest with
        | ':' :: rest =>
          match value fuel depth rest with
          | .error fault => .error fault
          | .ok (item, rest) =>
            match skipSpace rest with
            | ',' :: rest => members fuel depth (setField key item done) rest
            | '}' :: rest => .ok (.object (setField key item done), rest)
            | rest => .error (faultAt rest)
        | rest => .error (faultAt rest)
    | rest => .error (faultAt rest)

end

def parse (text : String) : Except Fault Value :=
  match value (text.toList.length + 2) maxDepth text.toList with
  | .error fault => .error fault
  | .ok (result, rest) =>
    match skipSpace rest with
    | [] => .ok result
    | c :: _ => .error (.unexpected c)

end Orphans.Json.Strict
