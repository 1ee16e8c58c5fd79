import ShortLinks.Code

/-!
# Drawn codes

Codes of letters and digits, drawn one character at a time from a stream of
64-bit words. The stream is a counter passed through a bijective mixing of its
bits, so a seed fixes every code drawn from it.
-/

namespace ShortLinks

set_option autoImplicit false

def codeAlphabet : List Char :=
  ("ABCDEFGHIJKLMNOPQRSTUVWXYZ" ++ "abcdefghijklmnopqrstuvwxyz" ++ "0123456789").toList

structure CodeSource where
  length : Nat
  seed : UInt64
  deriving DecidableEq, Repr

namespace CodeSource

def mix (word : UInt64) : UInt64 :=
  let first := (word ^^^ (word >>> 30)) * 0xbf58476d1ce4e5b9
  let second := (first ^^^ (first >>> 27)) * 0x94d049bb133111eb
  second ^^^ (second >>> 31)

def letter (seed : UInt64) : Char :=
  codeAlphabet.getD ((mix seed).toNat % codeAlphabet.length) 'A'

def letters : Nat → UInt64 → List Char
  | 0, _ => []
  | count + 1, seed =>
      let next := seed + 0x9e3779b97f4a7c15
      letter next :: letters count next

def draw (source : CodeSource) : ShortCode × CodeSource :=
  (⟨String.ofList (letters source.length source.seed)⟩,
    { source with
      seed := source.seed + UInt64.ofNat source.length * 0x9e3779b97f4a7c15 })

/-- The next codes in drawing order, and the source behind them. -/
def drawMany : Nat → CodeSource → List ShortCode × CodeSource
  | 0, source => ([], source)
  | count + 1, source =>
      let (code, behind) := source.draw
      let (codes, last) := drawMany count behind
      (code :: codes, last)

end CodeSource

structure DrawSummary where
  lengths : List Nat
  alphanumeric : Bool
  distinct : Nat
  deriving DecidableEq, Repr

def DrawSummary.of (codes : List ShortCode) : DrawSummary where
  lengths := codes.map fun code => code.text.length
  alphanumeric := codes.all fun code => code.text.toList.all Char.isAlphanum
  distinct := (codes.map ShortCode.text).eraseDups.length

end ShortLinks
