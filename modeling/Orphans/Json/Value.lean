import Orphans.Decimal.Binary64
import Orphans.Text.Numeral

/-! Values of JSON documents.

An object keeps its fields in the order of the text. A repeated key keeps its first place and takes the
last value, so the keys of an object are distinct.
-/

set_option autoImplicit false

namespace Orphans.Json

inductive Value where
  | null
  | boolean (value : Bool)
  | integer (value : Int)
  | double (value : Binary64)
  | string (text : String)
  | array (items : List Value)
  | object (fields : List (String × Value))

def setField (key : String) (value : Value) : List (String × Value) → List (String × Value)
  | [] => [(key, value)]
  | field :: rest => if field.1 = key then (key, value) :: rest else field :: setField key value rest

namespace Value

def field? (key : String) : Value → Option Value
  | .object fields => fields.lookup key
  | _ => none

def fields? : Value → Option (List (String × Value))
  | .object fields => some fields
  | _ => none

def string? : Value → Option String
  | .string text => some text
  | _ => none

end Value

inductive Fault where
  | unexpectedEnd
  | unexpected (found : Char)
  | openComment
  | badEscape
  | lineBreakInString
  | badNumber
  | numberTooLarge
  | reservedKey (word : String)
  | nestedTooDeeply
  deriving DecidableEq, Repr

def Fault.message : Fault → String
  | .unexpectedEnd => "unexpected end of input"
  | .unexpected found => "unexpected character U+" ++ .ofList (Text.hexDigits 4 found.toNat)
  | .openComment => "comment is not closed"
  | .badEscape => "invalid escape sequence"
  | .lineBreakInString => "line break in a string"
  | .badNumber => "invalid number"
  | .numberTooLarge => "number is too large"
  | .reservedKey word => "'" ++ word ++ "' cannot be a key"
  | .nestedTooDeeply => "containers are nested too deeply"

abbrev Read (α : Type) := Except Fault (α × List Char)

def faultAt : List Char → Fault
  | [] => .unexpectedEnd
  | c :: _ => .unexpected c

end Orphans.Json
