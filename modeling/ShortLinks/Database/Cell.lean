import ShortLinks.Text.Utf8

/-!
# Cells

The values that a column of the table can hold, however they came there, and
how they are read as text or as a flag. A column leans to its type: a number
put into a text column becomes its digits, and a text that looks like a number
becomes one in the column of a flag.
-/

namespace ShortLinks

set_option autoImplicit false

open Text (Bytes)

/-- A value in a column. A `real` stands for every number that is no whole number
of 64 bits; which one it is never shows. -/
inductive Cell
  | null
  | integer (value : Int)
  | real
  | text (bytes : Bytes)
  | blob (bytes : Bytes)
  deriving DecidableEq, Repr

/-- Why a cell cannot be read as the type that is asked for. -/
inductive CellFlaw
  | mismatch
  | notText (flaw : Text.Flaw)
  deriving DecidableEq, Repr

def CellFlaw.message : CellFlaw → String
  | mismatch => "mismatched types"
  | notText flaw => flaw.message

namespace Cell

def ofText (text : String) : Cell := .text (Text.encode text)

def inTextColumn : Cell → Cell
  | integer value => ofText (toString value)
  | cell => cell

def digitsValue (digits : List Char) : Nat :=
  digits.foldl (fun sum digit => sum * 10 + (digit.toNat - '0'.toNat)) 0

/-- A number without its sign: its digits, and the power of ten they are times. -/
structure Decimal where
  digits : List Char
  exponent : Int
  deriving DecidableEq, Repr

/-- The exponent at the front of a text, and what follows. A letter without digits
behind it is no exponent. -/
def exponentFront (text : List Char) : Int × List Char :=
  match text with
  | letter :: rest =>
      if letter == 'e' || letter == 'E' then
        let (minus, unsigned) : Bool × List Char :=
          match rest with
          | '-' :: later => (true, later)
          | '+' :: later => (false, later)
          | _ => (false, rest)
        match unsigned.takeWhile Char.isDigit with
        | [] => (0, text)
        | digits =>
            let size : Int := digitsValue digits
            (if minus then -size else size, unsigned.dropWhile Char.isDigit)
      else (0, text)
  | [] => (0, [])

def decimalFront (text : List Char) : Option (Decimal × List Char) :=
  let whole := text.takeWhile Char.isDigit
  let behindWhole := text.dropWhile Char.isDigit
  let (fraction, behindFraction) : List Char × List Char :=
    match behindWhole with
    | '.' :: rest => (rest.takeWhile Char.isDigit, rest.dropWhile Char.isDigit)
    | _ => ([], behindWhole)
  if whole.isEmpty && fraction.isEmpty then none
  else
    let (exponent, behind) := exponentFront behindFraction
    some (⟨whole ++ fraction, exponent - fraction.length⟩, behind)

/-- The whole number that a decimal is, if it is one of at most so many digits. -/
def Decimal.whole? (decimal : Decimal) : Option Nat :=
  let magnitude := digitsValue decimal.digits
  if magnitude = 0 then some 0
  else
    match decimal.exponent with
    | .ofNat shift => if shift ≤ 18 then some (magnitude * Nat.pow 10 shift) else none
    | .negSucc shift =>
        if decimal.digits.length ≤ shift then none
        else if magnitude % Nat.pow 10 (shift + 1) = 0 then
          some (magnitude / Nat.pow 10 (shift + 1))
        else none

/-- The number that a decimal is: a whole number if a 64-bit word holds it. -/
def ofDecimal (minus : Bool) (decimal : Decimal) : Cell :=
  match decimal.whole? with
  | none => .real
  | some magnitude =>
      if minus then
        if magnitude ≤ Nat.pow 2 63 then .integer (-(magnitude : Int)) else .real
      else if magnitude < Nat.pow 2 63 then .integer magnitude
      else .real

def isAsciiSpace (c : Char) : Bool :=
  c == ' ' || (0x9 ≤ c.toNat && c.toNat ≤ 0xd)

def numberOf? (text : List Char) : Option Cell :=
  let trimmed := text.dropWhile isAsciiSpace
  let (minus, unsigned) : Bool × List Char :=
    match trimmed with
    | '-' :: rest => (true, rest)
    | '+' :: rest => (false, rest)
    | _ => (false, trimmed)
  match decimalFront unsigned with
  | none => none
  | some (decimal, rest) =>
      if rest.all isAsciiSpace then some (ofDecimal minus decimal) else none

def inFlagColumn : Cell → Cell
  | text bytes =>
      match Text.decode? bytes with
      | none => .text bytes
      | some said => (numberOf? said.toList).getD (.text bytes)
  | cell => cell

/-- A cell as text. Null reads as the empty text. -/
def asText : Cell → Except CellFlaw String
  | null => .ok ""
  | integer value => .ok (toString value)
  | real | blob _ => .error .mismatch
  | text bytes =>
      match Text.decode? bytes with
      | some said => .ok said
      | none =>
          match Text.flaw? bytes with
          | some flaw => .error (.notText flaw)
          | none => .error .mismatch

/-- A cell as a flag: any whole number but zero is set. -/
def asFlag : Cell → Except CellFlaw Bool
  | integer value => .ok (value != 0)
  | null => .ok false
  | real | text _ | blob _ => .error .mismatch

end Cell

end ShortLinks
