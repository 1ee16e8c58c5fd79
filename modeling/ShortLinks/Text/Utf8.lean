/-!
# UTF-8

Texts as bytes. A byte string that is no text has a first flaw: a sequence that
no continuation could save, or one that ends too early.
-/

namespace ShortLinks.Text

set_option autoImplicit false

abbrev Bytes := List UInt8

def encode (text : String) : Bytes :=
  text.toList.flatMap String.utf8EncodeChar

def decode? (bytes : Bytes) : Option String :=
  String.fromUTF8? (ByteArray.mk bytes.toArray)

/-- What the bytes at the front of a byte string are: a character, a broken
sequence, or the beginning of a character that the bytes end in. -/
inductive Front
  | character (length : Nat)
  | broken (length : Nat)
  | unfinished
  deriving DecidableEq, Repr

def isContinuation (byte : UInt8) : Bool :=
  0x80 ≤ byte && byte ≤ 0xbf

/-- The bytes that may follow a first byte. Some ranges are narrower than all
continuation bytes: they exclude long forms, surrogates and numbers too large
for a code point. -/
def maySecond (first second : UInt8) : Bool :=
  if first = 0xe0 then 0xa0 ≤ second && second ≤ 0xbf
  else if first = 0xed then 0x80 ≤ second && second ≤ 0x9f
  else if first = 0xf0 then 0x90 ≤ second && second ≤ 0xbf
  else if first = 0xf4 then 0x80 ≤ second && second ≤ 0x8f
  else isContinuation second

/-- How many bytes a character with this first byte has; none starts one if the
answer is zero. -/
def charLength (first : UInt8) : Nat :=
  if first < 0x80 then 1
  else if 0xc2 ≤ first && first ≤ 0xdf then 2
  else if 0xe0 ≤ first && first ≤ 0xef then 3
  else if 0xf0 ≤ first && first ≤ 0xf4 then 4
  else 0

def front (first : UInt8) (rest : Bytes) : Front :=
  match charLength first with
  | 0 => .broken 1
  | 1 => .character 1
  | length =>
      match rest with
      | [] => .unfinished
      | second :: later =>
          if !maySecond first second then .broken 1
          else
            let follow := (later.take (length - 2)).takeWhile isContinuation
            if follow.length = length - 2 then .character length
            else if follow.length = later.length then .unfinished
            else .broken (2 + follow.length)

inductive Flaw
  | broken (length index : Nat)
  | unfinished (index : Nat)
  deriving DecidableEq, Repr

/-- The first flaw of a byte string, with the index it begins at. -/
def flawFrom : Nat → Nat → Bytes → Option Flaw
  | 0, _, _ => none
  | _ + 1, _, [] => none
  | fuel + 1, index, first :: rest =>
      match front first rest with
      | .character length =>
          flawFrom fuel (index + length) ((first :: rest).drop length)
      | .broken length => some (.broken length index)
      | .unfinished => some (.unfinished index)

def flaw? (bytes : Bytes) : Option Flaw :=
  flawFrom bytes.length 0 bytes

def Flaw.message : Flaw → String
  | broken length index =>
      "invalid utf-8 sequence of " ++ toString length ++ " bytes from index " ++
        toString index
  | unfinished index => "incomplete utf-8 byte sequence from index " ++ toString index

def lossyFrom : Nat → Bytes → List Char
  | 0, _ => []
  | _ + 1, [] => []
  | fuel + 1, first :: rest =>
      match front first rest with
      | .character length =>
          let bytes := (first :: rest).take length
          (((decode? bytes).getD "").toList) ++
            lossyFrom fuel ((first :: rest).drop length)
      | .broken length => '\ufffd' :: lossyFrom fuel ((first :: rest).drop length)
      | .unfinished => ['\ufffd']

def lossy (bytes : Bytes) : String :=
  String.ofList (lossyFrom bytes.length bytes)

end ShortLinks.Text
