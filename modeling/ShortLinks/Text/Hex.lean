import ShortLinks.Text.Utf8

/-!
# Hexadecimal bytes

Bytes written as two hexadecimal digits each, in lower case.
-/

namespace ShortLinks.Text

set_option autoImplicit false

/-- The value of a hexadecimal digit, in either case. -/
def hexDigit? (c : Char) : Option Nat :=
  if '0' ≤ c ∧ c ≤ '9' then some (c.toNat - '0'.toNat)
  else if 'a' ≤ c ∧ c ≤ 'f' then some (c.toNat - 'a'.toNat + 10)
  else if 'A' ≤ c ∧ c ≤ 'F' then some (c.toNat - 'A'.toNat + 10)
  else none

def hexByte (byte : UInt8) : List Char :=
  [Nat.digitChar (byte.toNat / 16), Nat.digitChar (byte.toNat % 16)]

def hex (bytes : Bytes) : List Char := bytes.flatMap hexByte

def unhex? : List Char → Option Bytes
  | [] => some []
  | [_] => none
  | high :: low :: rest => do
      let first ← hexDigit? high
      let second ← hexDigit? low
      let bytes ← unhex? rest
      return UInt8.ofNat (first * 16 + second) :: bytes

theorem hex_digit_value (digit : Nat) (small : digit < 16) :
    hexDigit? (Nat.digitChar digit) = some digit := by
  have each : ∀ value : Fin 16, hexDigit? (Nat.digitChar value) = some value.val := by decide
  exact each ⟨digit, small⟩

end ShortLinks.Text
