import Orphans.Json.Value
import Orphans.Text.Alphabetic
import Orphans.Text.Blank
import Orphans.Text.Mark
import Orphans.Text.Numeral
import Orphans.Text.Numeric
import Orphans.Text.Word

/-! The reader of relaxed JSON.

Comments, trailing commas, single quotes, unquoted keys and more spellings of numbers are allowed, as
people write them in configuration files. A number without a double value, infinity or the like, is read
as null. At most 3000 containers may be nested.
-/

set_option autoImplicit false

namespace Orphans.Json.Relaxed

def maxDepth : Nat := 3000

def isLineEnd (c : Char) : Bool := c == '\n' || c == '\r' || c == '\u2028' || c == '\u2029'

def isSpace (c : Char) : Bool := Text.isBlank c || c == '\ufeff'

def closeComment : List Char → Except Fault (List Char)
  | [] => .error .openComment
  | '*' :: '/' :: rest => .ok rest
  | _ :: rest => closeComment rest

def skipFiller : Nat → List Char → Except Fault (List Char)
  | 0, text => .ok text
  | fuel + 1, text =>
    match text.dropWhile isSpace with
    | '/' :: '/' :: rest => skipFiller fuel (rest.dropWhile fun c => !isLineEnd c)
    | '/' :: '*' :: rest => (closeComment rest).bind (skipFiller fuel)
    | rest => .ok rest

def skip (text : List Char) : Except Fault (List Char) := skipFiller (text.length + 1) text

/-- The character of a `\u` escape, the `\u` already taken. Surrogates are refused, paired or not. -/
def unicodeEscape : List Char → Read Char
  | a :: b :: c :: d :: rest =>
    if [a, b, c, d].all Text.isHexDigit then
      match Text.scalar? (Text.ofDigits 16 [a, b, c, d]) with
      | some scalar => .ok (scalar, rest)
      | none => .error .badEscape
    else .error .badEscape
  | _ => .error .badEscape

/-- The character of an escape, the backslash already taken. A line end stands for itself. -/
def escape : List Char → Read Char
  | [] => .error .unexpectedEnd
  | 'x' :: a :: b :: rest =>
    if [a, b].all Text.isHexDigit then .ok (Char.ofNat (Text.ofDigits 16 [a, b]), rest)
    else .error .badEscape
  | 'u' :: rest => unicodeEscape rest
  | c :: rest =>
    let plain := [('a', '\x07'), ('b', '\x08'), ('t', '\t'), ('n', '\n'), ('v', '\x0b'), ('f', '\x0c'),
      ('r', '\r'), ('0', '\x00'), ('\\', '\\'), ('\'', '\''), ('"', '"'), ('/', '/')]
    match plain.lookup c with
    | some escaped => .ok (escaped, rest)
    | none => if isLineEnd c then .ok (c, rest) else .error .badEscape

/-- The rest of a string behind its opening quote; `done` holds the characters so far, last one first.
A line feed may follow an escaped carriage return. -/
def stringBody (quote : Char) : Nat → List Char → List Char → Read String
  | 0, _, _ => .error .unexpectedEnd
  | _, _, [] => .error .unexpectedEnd
  | fuel + 1, done, c :: rest =>
    if c = quote then .ok (.ofList done.reverse, rest)
    else if c = '\\' then
      match rest with
      | '\r' :: '\n' :: rest => stringBody quote fuel ('\n' :: '\r' :: done) rest
      | rest =>
        match escape rest with
        | .ok (escaped, rest) => stringBody quote fuel (escaped :: done) rest
        | .error fault => .error fault
    else if isLineEnd c then .error .lineBreakInString
    else stringBody quote fuel (c :: done) rest

def string (quote : Char) (text : List Char) : Read String :=
  stringBody quote (text.length + 1) [] text

/-- Letters are those of version 17 of Unicode. -/
def startsName (c : Char) : Bool := Text.isAlphabetic c || c == '$' || c == '_'

/-- Letters and numerals are those of version 17 of Unicode, marks those of version 16. -/
def continuesName (c : Char) : Bool :=
  Text.isAlphabetic c || Text.isNumeric c || c == '$' || Text.isJoiner c || Text.isConnector c ||
    (Text.isMark c && !Text.isEnclosingMark c)

structure Name where
  spelled : List Char
  meant : List Char

def nameTail : Nat → Name → List Char → Read Name
  | 0, done, text => .ok (done, text)
  | _, done, [] => .ok (done, [])
  | fuel + 1, done, c :: rest =>
    if continuesName c then nameTail fuel ⟨c :: done.spelled, c :: done.meant⟩ rest
    else if c = '\\' then
      match rest with
      | 'u' :: rest =>
        match unicodeEscape rest with
        | .ok (meant, rest) => nameTail fuel ⟨c :: done.spelled, meant :: done.meant⟩ rest
        | .error fault => .error fault
      | _ => .error .badEscape
    else .ok (done, c :: rest)

/-- A name at the front of the text. An escape in front has to stand for a character that starts a name;
further escapes may stand for any. -/
def name : List Char → Read Name
  | '\\' :: 'u' :: rest =>
    match unicodeEscape rest with
    | .ok (meant, rest) =>
      if startsName meant then nameTail rest.length ⟨['\\'], [meant]⟩ rest else .error .badEscape
    | .error fault => .error fault
  | c :: rest =>
    if startsName c then nameTail rest.length ⟨[c], [c]⟩ rest else .error (.unexpected c)
  | [] => .error .unexpectedEnd

def reserved : List (String × Value) :=
  [("true", .boolean true), ("false", .boolean false), ("null", .null), ("NaN", .null),
   ("Infinity", .null)]

def bareKey (text : List Char) : Except Fault (String × List Char) := do
  let (found, rest) ← name text
  let spelled := String.ofList found.spelled.reverse
  if (reserved.lookup spelled).isSome then throw (.reservedKey spelled)
  else return (.ofList found.meant.reverse, rest)

inductive Sign where
  | none
  | plus
  | minus
  deriving DecidableEq

/-- A hexadecimal number. A minus sign narrows its range and is otherwise ignored. -/
def hexadecimal (sign : Sign) (text : List Char) : Read Value :=
  let digits := text.takeWhile Text.isHexDigit
  let value := Text.ofDigits 16 digits
  if digits = [] then .error .badNumber
  else if (if sign = .minus then Nat.pow 2 63 else Nat.pow 2 64) ≤ value then .error .numberTooLarge
  else .ok (.integer value, text.dropWhile Text.isHexDigit)

def integerValue (sign : Sign) (magnitude : Nat) : Except Fault Value :=
  if sign = .minus then
    if Nat.pow 2 63 ≤ magnitude then .error .numberTooLarge else .ok (.integer (-magnitude))
  else if Nat.pow 2 64 ≤ magnitude then .error .numberTooLarge
  else .ok (.integer magnitude)

/-- The double that digits, the count of places among them and an exponent give; null if infinite. -/
def doubleValue (sign : Sign) (digits : List Char) (places : Nat) (exponent : Int) : Value :=
  match Size.ofDecimal (Text.ofDigits 10 digits) (exponent - places) with
  | .infinite => .null
  | size => .double ⟨sign = .minus, size⟩

def exponent (text : List Char) : Read Int :=
  let signed : Bool × List Char :=
    match text with
    | '+' :: rest => (true, rest)
    | '-' :: rest => (false, rest)
    | rest => (true, rest)
  let digits := signed.2.takeWhile Char.isDigit
  let value : Int := Text.ofDigits 10 digits
  if digits = [] then .error .badNumber
  else .ok (if signed.1 then value else -value, signed.2.dropWhile Char.isDigit)

def decimal (sign : Sign) (text : List Char) : Read Value :=
  let whole := text.takeWhile Char.isDigit
  let behindWhole := text.dropWhile Char.isDigit
  let pointed : Option (List Char) × List Char :=
    match behindWhole with
    | '.' :: rest => (some (rest.takeWhile Char.isDigit), rest.dropWhile Char.isDigit)
    | rest => (none, rest)
  let places := pointed.1.getD []
  if 1 < whole.length ∧ whole.head? = some '0' then .error .badNumber
  else if whole ++ places = [] then .error .badNumber
  else
    match pointed.2 with
    | 'e' :: rest | 'E' :: rest =>
      (exponent rest).map fun (power, rest) =>
        (doubleValue sign (whole ++ places) places.length power, rest)
    | rest =>
      if pointed.1.isSome then .ok (doubleValue sign (whole ++ places) places.length 0, rest)
      else (integerValue sign (Text.ofDigits 10 whole)).map (·, rest)

def number (sign : Sign) : List Char → Read Value
  | '0' :: 'x' :: rest | '0' :: 'X' :: rest => hexadecimal sign rest
  | text => decimal sign text

def startsNumber (c : Char) : Bool := c.isDigit || c == '.'

def signedNumber (sign : Sign) (text : List Char) : Except Fault (Value × List Char) := do
  let text ← skip text
  match text with
  | [] => throw .unexpectedEnd
  | c :: _ =>
    if startsNumber c then number sign text
    else
      let (found, rest) ← name text
      let spelled := String.ofList found.spelled.reverse
      if spelled = "NaN" ∨ spelled = "Infinity" then return (.null, rest)
      else throw (.unexpected c)

def wordValue (text : List Char) : Except Fault (Value × List Char) := do
  let (found, rest) ← name text
  match reserved.lookup (String.ofList found.spelled.reverse) with
  | some value => return (value, rest)
  | none => throw (faultAt text)

def scalarValue (c : Char) (rest : List Char) : Read Value :=
  if c = '"' ∨ c = '\'' then (string c rest).map fun (text, rest) => (.string text, rest)
  else if c = '+' then signedNumber .plus rest
  else if c = '-' then signedNumber .minus rest
  else if startsNumber c then number .none (c :: rest)
  else wordValue (c :: rest)

def key : List Char → Read String
  | c :: rest => if c = '"' ∨ c = '\'' then string c rest else bareKey (c :: rest)
  | [] => .error .unexpectedEnd

mutual

/-- A value, with `depth` more containers allowed. Every call spends fuel. -/
def value : Nat → Nat → List Char → Read Value
  | 0, _, _ => .error .unexpectedEnd
  | fuel + 1, depth, text =>
    match skip text with
    | .error fault => .error fault
    | .ok [] => .error .unexpectedEnd
    | .ok (c :: rest) =>
      if c = '[' then
        if depth = 0 then .error .nestedTooDeeply else elements fuel (depth - 1) [] rest
      else if c = '{' then
        if depth = 0 then .error .nestedTooDeeply else members fuel (depth - 1) [] rest
      else scalarValue c rest

def elements : Nat → Nat → List Value → List Char → Read Value
  | 0, _, _, _ => .error .unexpectedEnd
  | fuel + 1, depth, done, text =>
    match skip text with
    | .error fault => .error fault
    | .ok (']' :: rest) => .ok (.array done.reverse, rest)
    | .ok text =>
      match value fuel depth text with
      | .error fault => .error fault
      | .ok (item, rest) =>
        match skip rest with
        | .error fault => .error fault
        | .ok (',' :: rest) => elements fuel depth (item :: done) rest
        | .ok (']' :: rest) => .ok (.array (item :: done).reverse, rest)
        | .ok rest => .error (faultAt rest)

def members : Nat → Nat → List (String × Value) → List Char → Read Value
  | 0, _, _, _ => .error .unexpectedEnd
  | fuel + 1, depth, done, text =>
    match skip text with
    | .error fault => .error fault
    | .ok ('}' :: rest) => .ok (.object done, rest)
    | .ok text =>
      match key text with
      | .error fault => .error fault
      | .ok (name, rest) =>
        match skip rest with
        | .error fault => .error fault
        | .ok (':' :: rest) =>
          match value fuel depth rest with
          | .error fault => .error fault
          | .ok (item, rest) =>
            match skip rest with
            | .error fault => .error fault
            | .ok (',' :: rest) => members fuel depth (setField name item done) rest
            | .ok ('}' :: rest) => .ok (.object (setField name item done), rest)
            | .ok rest => .error (faultAt rest)
        | .ok rest => .error (faultAt rest)

end

def parse (text : String) : Except Fault Value := do
  let (result, rest) ← value (text.toList.length + 2) maxDepth text.toList
  match ← skip rest with
  | [] => return result
  | c :: _ => throw (.unexpected c)

end Orphans.Json.Relaxed
