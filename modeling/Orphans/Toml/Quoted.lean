import Orphans.Text.Numeral
import Orphans.Toml.Value

/-! The four kinds of TOML strings.

A string is basic, with escapes, or literal, without; both have a form over several lines, in which a
line end right behind the opening is dropped and every other line end is one line feed.
-/

set_option autoImplicit false

namespace Orphans.Toml

def codeEscape (width : Nat) (text : List Char) : Read Char :=
  let digits := text.take width
  if digits.length = width ∧ digits.all Text.isHexDigit then
    (Text.scalar? (Text.ofDigits 16 digits)).map (·, text.drop width)
  else none

def escape : List Char → Read Char
  | 'b' :: rest => some ('\x08', rest)
  | 't' :: rest => some ('\t', rest)
  | 'n' :: rest => some ('\n', rest)
  | 'f' :: rest => some ('\x0c', rest)
  | 'r' :: rest => some ('\r', rest)
  | '"' :: rest => some ('"', rest)
  | '\\' :: rest => some ('\\', rest)
  | 'u' :: rest => codeEscape 4 rest
  | 'U' :: rest => codeEscape 8 rest
  | _ => none

def basicBody : Nat → List Char → List Char → Read String
  | 0, _, _ => none
  | _, _, [] => none
  | fuel + 1, done, c :: rest =>
    if c = '"' then some (.ofList done.reverse, rest)
    else if c = '\\' then
      match escape rest with
      | some (escaped, rest) => basicBody fuel (escaped :: done) rest
      | none => none
    else if isPrintable c then basicBody fuel (c :: done) rest
    else none

def literalBody (text : List Char) : Read String :=
  let body := text.takeWhile fun c => c ≠ '\'' && isPrintable c
  match text.dropWhile fun c => c ≠ '\'' && isPrintable c with
  | '\'' :: rest => some (.ofList body, rest)
  | _ => none

def skipLines : List Char → List Char
  | '\n' :: rest => skipLines rest
  | '\r' :: '\n' :: rest => skipLines rest
  | c :: rest => if isSpace c then skipLines rest else c :: rest
  | [] => []

/-- The text behind a backslash that ends its line, and behind all blank space after it. -/
def continuation? (text : List Char) : Option (List Char) :=
  (lineEnd? (skipSpace text)).map skipLines

/-- A run of quotes inside a string over several lines. One or two belong to the string, three close it,
and up to two more before the closing ones belong to it; longer runs are refused. -/
inductive QuoteRun where
  | inside
  | closing (extra : Nat)
  | tooLong

def quoteRun (count : Nat) : QuoteRun :=
  if count < 3 then .inside else if count ≤ 5 then .closing (count - 3) else .tooLong

def linesBody (quote : Char) (escapes : Bool) : Nat → List Char → List Char → Read String
  | 0, _, _ => none
  | _, _, [] => none
  | fuel + 1, done, c :: rest =>
    if c = quote then
      let count := ((c :: rest).takeWhile (· == quote)).length
      let behind := (c :: rest).dropWhile (· == quote)
      match quoteRun count with
      | .inside => linesBody quote escapes fuel (List.replicate count quote ++ done) behind
      | .closing extra => some (.ofList (List.replicate extra quote ++ done).reverse, behind)
      | .tooLong => none
    else if escapes && c == '\\' then
      match continuation? rest with
      | some rest => linesBody quote escapes fuel done rest
      | none =>
        match escape rest with
        | some (escaped, rest) => linesBody quote escapes fuel (escaped :: done) rest
        | none => none
    else
      match lineEnd? (c :: rest) with
      | some rest => linesBody quote escapes fuel ('\n' :: done) rest
      | none => if isPrintable c then linesBody quote escapes fuel (c :: done) rest else none

def lines (quote : Char) (escapes : Bool) (text : List Char) : Read String :=
  linesBody quote escapes (text.length + 1) [] ((lineEnd? text).getD text)

def lineString : List Char → Read String
  | '"' :: rest => basicBody (rest.length + 1) [] rest
  | '\'' :: rest => literalBody rest
  | _ => none

def string : List Char → Read String
  | '"' :: '"' :: '"' :: rest => lines '"' true rest
  | '\'' :: '\'' :: '\'' :: rest => lines '\'' false rest
  | text => lineString text

end Orphans.Toml
