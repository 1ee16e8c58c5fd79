import ShortLinks.Text.Numbered

/-!
# Quoted text in messages

Messages show a text between double quotes. Quotes, backslashes and the common
controls are escaped by a letter, other characters that cannot be seen by their
number, and the rest stand for themselves.
-/

namespace ShortLinks.Text

set_option autoImplicit false

def quotedChar (c : Char) : List Char :=
  if c = Char.ofNat 0 then ['\\', '0']
  else if c = '\t' then ['\\', 't']
  else if c = '\r' then ['\\', 'r']
  else if c = '\n' then ['\\', 'n']
  else if c = '\\' then ['\\', '\\']
  else if c = '"' then ['\\', '"']
  else if ' ' ≤ c ∧ c ≤ '~' then [c]
  else if isNumbered c then
    ['\\', 'u', '\x7b'] ++ Nat.toDigits 16 c.toNat ++ ['\x7d']
  else [c]

def quoted (text : String) : String :=
  String.ofList ('"' :: text.toList.flatMap quotedChar ++ ['"'])

end ShortLinks.Text
