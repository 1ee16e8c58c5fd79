import ShortLinks.Text.Hex
import ShortLinks.Text.Quoted
import ShortLinks.Text.Split
import ShortLinks.StorageError

/-!
# Connection strings

A connection string names a database file and how it is opened. The scheme in
front is dropped, percent escapes in the name are decoded, and the parameters
behind the first question mark are looked at one by one.
-/

namespace ShortLinks

set_option autoImplicit false

structure DatabaseLocation where
  path : String
  readOnly : Bool
  inMemory : Bool
  deriving DecidableEq, Repr

inductive LocationFault
  | unknownValue (key value : String)
  | unknownParameter (key : String)
  | notText (flaw : Text.Flaw)
  deriving DecidableEq, Repr

def LocationFault.message : LocationFault → String
  | unknownValue key value =>
      "error with configuration: unknown value " ++ Text.quoted value ++
        " for `" ++ key ++ "`"
  | unknownParameter key =>
      "error with configuration: unknown query parameter `" ++ key ++
        "` while parsing connection URL"
  | notText flaw => "error with configuration: " ++ flaw.message

namespace DatabaseLocation

def dropRepeated (leading : List Char) : Nat → List Char → List Char
  | 0, text => text
  | fuel + 1, text =>
      if leading.isPrefixOf text then dropRepeated leading fuel (text.drop leading.length)
      else text

def withoutScheme (dsn : List Char) : List Char :=
  let plain := dropRepeated "sqlite://".toList dsn.length dsn
  dropRepeated "sqlite:".toList plain.length plain

def hexDigit? (byte : UInt8) : Option UInt8 :=
  (Text.hexDigit? (Char.ofNat byte.toNat)).map UInt8.ofNat

/-- Percent escapes stand for bytes; a percent sign without two hexadecimal
digits stands for itself. -/
def percentDecoded : Text.Bytes → Text.Bytes
  | [] => []
  | [byte] => [byte]
  | [byte, second] => [byte, second]
  | byte :: first :: second :: rest =>
      if byte = 37 then
        match hexDigit? first, hexDigit? second with
        | some high, some low => (high * 16 + low) :: percentDecoded rest
        | _, _ => byte :: percentDecoded (first :: second :: rest)
      else byte :: percentDecoded (first :: second :: rest)

/-- A parameter's key or value: a plus sign stands for a space. -/
def parameterText (text : List Char) : String :=
  let spaced := text.map fun c => if c = '+' then ' ' else c
  Text.lossy (percentDecoded (Text.encode (String.ofList spaced)))

/-- The keys and values behind the question mark, empty parts left out. -/
def parameters (text : List Char) : List (String × String) :=
  ((Text.splitAt '&' text).filter fun part => !part.isEmpty).map fun part =>
    (parameterText (part.takeWhile (· != '=')),
      parameterText ((part.dropWhile (· != '=')).drop 1))

def applyParameter (location : DatabaseLocation) (parameter : String × String) :
    Except LocationFault DatabaseLocation :=
  let (key, value) := parameter
  if key = "mode" then
    if value = "ro" then .ok { location with readOnly := true }
    else if value = "rw" || value = "rwc" then .ok location
    else if value = "memory" then .ok { location with inMemory := true }
    else .error (.unknownValue key value)
  else if key = "cache" then
    if value = "private" || value = "shared" then .ok location
    else .error (.unknownValue key value)
  else if key = "immutable" then
    if value = "true" || value = "1" || value = "false" || value = "0" then .ok location
    else .error (.unknownValue key value)
  else if key = "vfs" then .ok location
  else .error (.unknownParameter key)

/-- Parses a connection string. What an engine reads into the name and the parameters beyond that is
left out: a name that is an address itself, as `file::memory:`, names a file here, and `vfs` and
`immutable` change nothing. -/
def parse (dsn : String) : Except LocationFault DatabaseLocation := do
  let plain := withoutScheme dsn.toList
  let name := plain.takeWhile (· != '?')
  let query := (plain.dropWhile (· != '?')).drop 1
  let bytes := percentDecoded (Text.encode (String.ofList name))
  let start : DatabaseLocation ←
    if name = ":memory:".toList then
      pure ⟨"", false, true⟩
    else
      match Text.decode? bytes with
      | some path => pure ⟨path, false, false⟩
      | none => throw (.notText ((Text.flaw? bytes).getD (.unfinished 0)))
  (parameters query).foldlM applyParameter start

end DatabaseLocation

end ShortLinks
