import Orphans.Decimal.Shortest
import Orphans.Json.Value

/-! JSON as it is written. -/

set_option autoImplicit false

namespace Orphans.Json

/-- A character inside a literal. Quotes, backslashes and control characters are escaped, and nothing
else is. -/
def escapeChar (c : Char) : List Char :=
  if c = '"' then ['\\', '"']
  else if c = '\\' then ['\\', '\\']
  else if c = '\x08' then ['\\', 'b']
  else if c = '\x0c' then ['\\', 'f']
  else if c = '\n' then ['\\', 'n']
  else if c = '\r' then ['\\', 'r']
  else if c = '\t' then ['\\', 't']
  else if c < ' ' then ['\\', 'u'] ++ Text.hexDigits 4 c.toNat
  else [c]

def quoteChars (text : String) : List Char :=
  '"' :: (text.toList.flatMap escapeChar ++ ['"'])

def quote (text : String) : String := .ofList (quoteChars text)

def integerChars (value : Int) : List Char :=
  if value < 0 then '-' :: Text.decimalDigits value.natAbs else Text.decimalDigits value.natAbs

/-- A double with the fewest digits that read back. What is not finite has no JSON form but `null`. -/
def doubleChars (value : Binary64) : List Char :=
  match value.size with
  | .infinite => "null".toList
  | size => if value.negative then '-' :: Decimal.render size else Decimal.render size

def newLine (depth : Nat) : List Char := '\n' :: List.replicate (2 * depth) ' '

def bracketed (depth : Nat) (opening closing : Char) : List (List Char) → List Char
  | [] => [opening, closing]
  | members =>
    opening :: ([','].intercalate (members.map (newLine (depth + 1) ++ ·)) ++
      newLine depth ++ [closing])

mutual

def prettyChars (depth : Nat) : Value → List Char
  | .null => "null".toList
  | .boolean value => (if value then "true" else "false").toList
  | .integer value => integerChars value
  | .double value => doubleChars value
  | .string text => quoteChars text
  | .array items => bracketed depth '[' ']' (prettyItems (depth + 1) items)
  | .object fields => bracketed depth '\x7b' '\x7d' (prettyFields (depth + 1) fields)

def prettyItems (depth : Nat) : List Value → List (List Char)
  | [] => []
  | item :: rest => prettyChars depth item :: prettyItems depth rest

def prettyFields (depth : Nat) : List (String × Value) → List (List Char)
  | [] => []
  | (key, value) :: rest =>
    (quoteChars key ++ ':' :: ' ' :: prettyChars depth value) :: prettyFields depth rest

end

def Value.pretty (value : Value) : String := .ofList (prettyChars 0 value)

end Orphans.Json
