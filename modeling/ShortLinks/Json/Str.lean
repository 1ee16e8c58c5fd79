import ShortLinks.Json.Fault
import ShortLinks.Text.Hex

/-!
# JSON strings

Reading a string behind its opening quote, one character at a time, and writing
one. Characters beyond the basic plane may be escaped as a pair of surrogates.
A string that is only skipped may hold surrogates in any order.
-/

namespace ShortLinks.Json

set_option autoImplicit false

def shortEscape? (c : Char) : Option Char :=
  if c = '"' then some '"'
  else if c = '\\' then some '\\'
  else if c = '/' then some '/'
  else if c = 'b' then some (Char.ofNat 8)
  else if c = 'f' then some (Char.ofNat 12)
  else if c = 'n' then some '\n'
  else if c = 'r' then some '\r'
  else if c = 't' then some '\t'
  else none

def isControl (c : Char) : Bool := c.toNat < 0x20

def isHighSurrogate (unit : Nat) : Bool := 0xd800 ≤ unit && unit ≤ 0xdbff

def isLowSurrogate (unit : Nat) : Bool := 0xdc00 ≤ unit && unit ≤ 0xdfff

def surrogatePair (high low : Nat) : Char :=
  Char.ofNat ((high - 0xd800) * 0x400 + (low - 0xdc00) + 0x10000)

/-- Where in a string the reader stands. A hexadecimal escape counts the digits
it has read, and remembers the high surrogate it completes. -/
inductive Within
  | plain
  | escape
  | hex (high : Option Nat) (digits value : Nat)
  | afterHigh (high : Nat)
  | escapeAfterHigh (high : Nat)
  deriving DecidableEq, Repr

/-- A hexadecimal escape takes the next four bytes, whatever they are: if fewer
are left the string ends too early, otherwise the escape is invalid. -/
def hexFault (digits : Nat) (text : List Char) : Fault :=
  if text.foldl (fun bytes c => bytes + c.utf8Size) digits < 4 then .endInString else .invalidEscape

/-- What four hexadecimal digits stand for: a character, or a high surrogate
whose partner has to follow. -/
def hexUnit (high : Option Nat) (unit : Nat) : Except Fault (Char ⊕ Nat) :=
  match high with
  | some first =>
      if isLowSurrogate unit then .ok (.inl (surrogatePair first unit))
      else .error .loneSurrogate
  | none =>
      if isLowSurrogate unit then .error .loneSurrogate
      else if isHighSurrogate unit then .ok (.inr unit)
      else .ok (.inl (Char.ofNat unit))

/-- The text of a string and what follows its closing quote. -/
def readString : Within → List Char → Except Fault (List Char × List Char)
  | .hex _ digits _, [] => .error (hexFault digits [])
  | _, [] => .error .endInString
  | .plain, c :: rest =>
      if c = '"' then .ok ([], rest)
      else if c = '\\' then readString .escape rest
      else if isControl c then .error .controlCharacter
      else (readString .plain rest).map fun (text, behind) => (c :: text, behind)
  | .escape, c :: rest =>
      if c = 'u' then readString (.hex none 0 0) rest
      else
        match shortEscape? c with
        | none => .error .invalidEscape
        | some meant =>
            (readString .plain rest).map fun (text, behind) => (meant :: text, behind)
  | .hex high digits value, c :: rest =>
      match Text.hexDigit? c with
      | none => .error (hexFault digits (c :: rest))
      | some digit =>
          let unit := value * 16 + digit
          if digits < 3 then readString (.hex high (digits + 1) unit) rest
          else
            match hexUnit high unit with
            | .error fault => .error fault
            | .ok (.inr first) => readString (.afterHigh first) rest
            | .ok (.inl meant) =>
                (readString .plain rest).map fun (text, behind) =>
                  (meant :: text, behind)
  | .afterHigh high, c :: rest =>
      if c = '\\' then readString (.escapeAfterHigh high) rest
      else .error .unfinishedSurrogate
  | .escapeAfterHigh high, c :: rest =>
      if c = 'u' then readString (.hex (some high) 0 0) rest
      else .error .unfinishedSurrogate

inductive Skipping
  | plain
  | escape
  | hex (digits : Nat)
  deriving DecidableEq, Repr

def skipString : Skipping → List Char → Except Fault (List Char)
  | .hex digits, [] => .error (hexFault digits [])
  | _, [] => .error .endInString
  | .plain, c :: rest =>
      if c = '"' then .ok rest
      else if c = '\\' then skipString .escape rest
      else if isControl c then .error .controlCharacter
      else skipString .plain rest
  | .escape, c :: rest =>
      if c = 'u' then skipString (.hex 0) rest
      else if (shortEscape? c).isSome then skipString .plain rest
      else .error .invalidEscape
  | .hex digits, c :: rest =>
      match Text.hexDigit? c with
      | none => .error (hexFault digits (c :: rest))
      | some _ =>
          if digits < 3 then skipString (.hex (digits + 1)) rest
          else skipString .plain rest

/-- One character inside a written string. Quotes, backslashes and controls are
escaped, the controls without a letter by four lower-case digits. -/
def writtenChar (c : Char) : List Char :=
  if c = '"' then ['\\', '"']
  else if c = '\\' then ['\\', '\\']
  else if c = Char.ofNat 8 then ['\\', 'b']
  else if c = Char.ofNat 12 then ['\\', 'f']
  else if c = '\n' then ['\\', 'n']
  else if c = '\r' then ['\\', 'r']
  else if c = '\t' then ['\\', 't']
  else if isControl c then
    ['\\', 'u', '0', '0', Nat.digitChar (c.toNat / 16), Nat.digitChar (c.toNat % 16)]
  else [c]

def writeString (text : String) : List Char :=
  '"' :: text.toList.flatMap writtenChar ++ ['"']

end ShortLinks.Json
