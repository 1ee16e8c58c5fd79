import ShortLinks.Text.Utf8

/-!
# Lines of bytes

Bytes are split at newlines. What stands behind the last newline is a line only
if it is not empty, so text that ends in a newline has no empty last line.
-/

namespace ShortLinks.Text

set_option autoImplicit false

def newline : UInt8 := 10

def splitLines : Bytes → List Bytes
  | [] => []
  | byte :: rest =>
      if byte = newline then [] :: splitLines rest
      else
        match splitLines rest with
        | [] => [[byte]]
        | line :: lines => (byte :: line) :: lines

end ShortLinks.Text
