import ShortLinks.Code

/-!
# Codes in sequence

A sequence hands out a fixed stem followed by a counter. The counter is padded
with zeros to the key length, and a counter that outgrows the padding makes the
code longer. It is a 64-bit word, so it starts again from zero after the last.
-/

namespace ShortLinks

set_option autoImplicit false

structure CodeSequence where
  stem : String
  next : UInt64
  deriving DecidableEq, Repr

namespace CodeSequence

/-- How many digits the padding fills up: the stem counts in UTF-8 bytes. -/
def width (sequence : CodeSequence) : Nat :=
  keyLength - sequence.stem.utf8ByteSize

/-- The decimal digits of a number, padded with zeros to a width. -/
def paddedDigits (width number : Nat) : List Char :=
  let digits := Nat.toDigits 10 number
  List.replicate (width - digits.length) '0' ++ digits

def codeAt (sequence : CodeSequence) (counter : UInt64) : ShortCode :=
  ⟨String.ofList (sequence.stem.toList ++ paddedDigits sequence.width counter.toNat)⟩

def draw (sequence : CodeSequence) : ShortCode × CodeSequence :=
  (sequence.codeAt sequence.next, { sequence with next := sequence.next + 1 })

def drawMany : Nat → CodeSequence → List ShortCode × CodeSequence
  | 0, sequence => ([], sequence)
  | count + 1, sequence =>
      let (code, behind) := sequence.draw
      let (codes, last) := drawMany count behind
      (code :: codes, last)

end CodeSequence

end ShortLinks
