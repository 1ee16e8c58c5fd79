import ShortLinks.Code.Draw
import ShortLinks.Code.Sequence

/-!
# Code supplies

Where the service gets its codes from: a sequence, a list that is gone through
again and again, or a source of drawn codes. Nothing keeps a supply from handing
out a code twice.
-/

namespace ShortLinks

set_option autoImplicit false

inductive CodeSupply
  | sequence (codes : CodeSequence)
  | cycle (codes : List ShortCode) (position : Nat)
  | drawn (source : CodeSource)
  deriving DecidableEq, Repr

namespace CodeSupply

def draw : CodeSupply → ShortCode × CodeSupply
  | sequence codes =>
      let (code, behind) := codes.draw
      (code, .sequence behind)
  | cycle codes position =>
      (codes.getD (position % codes.length) default, .cycle codes (position + 1))
  | drawn source =>
      let (code, behind) := source.draw
      (code, .drawn behind)

/-- The next codes in drawing order, and the supply behind them. -/
def drawMany : Nat → CodeSupply → List ShortCode × CodeSupply
  | 0, supply => ([], supply)
  | count + 1, supply =>
      let (code, behind) := supply.draw
      let (codes, last) := drawMany count behind
      (code :: codes, last)

end CodeSupply

end ShortLinks
