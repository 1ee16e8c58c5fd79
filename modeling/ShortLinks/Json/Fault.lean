import ShortLinks.Text.Quoted

/-!
# Faults of a JSON text

Why a JSON text is refused: its syntax, or a value of another type than the one
that is read. A text has one fault, the first in text order.
-/

namespace ShortLinks.Json

set_option autoImplicit false

/-- The kind of value that a text was expected to hold. -/
inductive Expected
  | text
  | flag
  | count
  | object (name : String)
  deriving DecidableEq, Repr

/-- The value that stands there instead. -/
inductive Found
  | integer (value : Int)
  | floating
  | boolean (value : Bool)
  | null
  | map
  | sequence
  | text (value : String)
  deriving DecidableEq, Repr

inductive Fault
  | endInValue
  | endInString
  | endInList
  | endInObject
  | expectedValue
  | expectedWord
  | expectedColon
  | expectedObjectComma
  | expectedListComma
  | keyMustBeText
  | trailingComma
  | trailingText
  | invalidNumber
  | numberOutOfRange
  | invalidEscape
  | loneSurrogate
  | unfinishedSurrogate
  | controlCharacter
  | missingField (name : String)
  | duplicateField (name : String)
  | wrongType (found : Found) (expected : Expected)
  | wrongValue (found : Found) (expected : Expected)
  | wrongLength (length : Nat) (name : String) (fields : Nat)
  deriving DecidableEq, Repr

def Expected.phrase : Expected → String
  | text => "a string"
  | flag => "a boolean"
  | count => "usize"
  | object name => "struct " ++ name

def Found.phrase : Found → String
  | integer value => "integer `" ++ toString value ++ "`"
  | floating => "floating point _"
  | boolean value => "boolean `" ++ (if value then "true" else "false") ++ "`"
  | null => "null"
  | map => "map"
  | sequence => "sequence"
  | text value => "string " ++ Text.quoted value

/-- What is wrong with a text, without the place: the line and the column that are shown behind it
are left out. -/
def Fault.message : Fault → String
  | endInValue => "EOF while parsing a value"
  | endInString => "EOF while parsing a string"
  | endInList => "EOF while parsing a list"
  | endInObject => "EOF while parsing an object"
  | expectedValue => "expected value"
  | expectedWord => "expected ident"
  | expectedColon => "expected `:`"
  | expectedObjectComma => "expected `,` or `\x7d`"
  | expectedListComma => "expected `,` or `]`"
  | keyMustBeText => "key must be a string"
  | trailingComma => "trailing comma"
  | trailingText => "trailing characters"
  | invalidNumber => "invalid number"
  | numberOutOfRange => "number out of range"
  | invalidEscape => "invalid escape"
  | loneSurrogate => "lone leading surrogate in hex escape"
  | unfinishedSurrogate => "unexpected end of hex escape"
  | controlCharacter =>
      "control character (\\u0000-\\u001F) found while parsing a string"
  | missingField name => "missing field `" ++ name ++ "`"
  | duplicateField name => "duplicate field `" ++ name ++ "`"
  | wrongType found expected =>
      "invalid type: " ++ found.phrase ++ ", expected " ++ expected.phrase
  | wrongValue found expected =>
      "invalid value: " ++ found.phrase ++ ", expected " ++ expected.phrase
  | wrongLength length name fields =>
      "invalid length " ++ toString length ++ ", expected struct " ++ name ++
        " with " ++ toString fields ++ " elements"

end ShortLinks.Json
