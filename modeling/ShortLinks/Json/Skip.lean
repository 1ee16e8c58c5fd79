import ShortLinks.Json.Number
import ShortLinks.Json.Str

/-!
# Values that are not looked at

Members with unknown names are passed over. Their syntax is checked, but not
the range of their numbers, not their surrogates, and not how deep they nest.
-/

namespace ShortLinks.Json

set_option autoImplicit false

/-- The white space that may stand between tokens. -/
def isSpace (c : Char) : Bool := c == ' ' || c == '\n' || c == '\t' || c == '\r'

def skipSpace (text : List Char) : List Char := text.dropWhile isSpace

def readWord : List Char → List Char → Except Fault (List Char)
  | [], text => .ok text
  | _ :: _, [] => .error .endInValue
  | letter :: letters, c :: rest =>
      if c = letter then readWord letters rest else .error .expectedWord

inductive Frame
  | list
  | object
  deriving DecidableEq, Repr

def Frame.endFault : Frame → Fault
  | list => .endInList
  | object => .endInObject

def Frame.commaFault : Frame → Fault
  | list => .expectedListComma
  | object => .expectedObjectComma

def Frame.closing : Frame → Char
  | list => ']'
  | object => '\x7d'

/-- What is read next inside the innermost open frame. -/
inductive Position
  | value
  | firstItem
  | nextItem
  deriving DecidableEq, Repr

def skipName (text : List Char) : Except Fault (List Char) :=
  match skipSpace text with
  | [] => .error .endInObject
  | c :: rest =>
      if c ≠ '"' then .error .keyMustBeText
      else
        match skipString .plain rest with
        | .error fault => .error fault
        | .ok behind =>
            match skipSpace behind with
            | [] => .error .endInObject
            | ':' :: later => .ok later
            | _ => .error .expectedColon

/-- The item of a frame begins: a member of an object begins with its name. -/
def skipToValue (frame : Frame) (text : List Char) : Except Fault (List Char) :=
  match frame with
  | .list => .ok text
  | .object => skipName text

def skipScalar (first : Char) (rest : List Char) : Except Fault (List Char) :=
  if first = '"' then skipString .plain rest
  else if first = 'n' then readWord ['u', 'l', 'l'] rest
  else if first = 't' then readWord ['r', 'u', 'e'] rest
  else if first = 'f' then readWord ['a', 'l', 's', 'e'] rest
  else if first = '-' then skipNumber rest
  else if first.isDigit then skipNumber (first :: rest)
  else .error .expectedValue

/-- Passes over a value with all frames it opens. Every second step takes a
character, which bounds the steps. -/
def skipFrom : Nat → Position → List Frame → List Char → Except Fault (List Char)
  | 0, _, _, _ => .error .endInValue
  | fuel + 1, .value, frames, text =>
      match skipSpace text with
      | [] => .error .endInValue
      | '[' :: rest => skipFrom fuel .firstItem (.list :: frames) rest
      | '\x7b' :: rest => skipFrom fuel .firstItem (.object :: frames) rest
      | first :: rest =>
          match skipScalar first rest with
          | .error fault => .error fault
          | .ok behind => skipFrom fuel .nextItem frames behind
  | _ + 1, _, [], text => .ok text
  | fuel + 1, position, frame :: frames, text =>
      match skipSpace text with
      | [] => .error frame.endFault
      | first :: rest =>
          if first = frame.closing then skipFrom fuel .nextItem frames rest
          else if position = .firstItem then
            match skipToValue frame (first :: rest) with
            | .error fault => .error fault
            | .ok behind => skipFrom fuel .value (frame :: frames) behind
          else if first ≠ ',' then .error frame.commaFault
          else
            match skipToValue frame rest with
            | .error fault => .error fault
            | .ok behind => skipFrom fuel .value (frame :: frames) behind

def skipValue (text : List Char) : Except Fault (List Char) :=
  skipFrom (2 * text.length + 2) .value [] text

end ShortLinks.Json
