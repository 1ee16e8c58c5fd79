/-!
# Short codes

A short code is the public name of a shortened URL. It is opaque: any text is a
code. A code becomes a link by being put under a base URL.
-/

namespace ShortLinks

set_option autoImplicit false

/-- The length of the codes that the default source draws, and the width of the
code column in the database. -/
def keyLength : Nat := 8

structure ShortCode where
  text : String
  deriving DecidableEq, Repr, Inhabited

namespace ShortCode

def withoutTrailingSlashes (base : String) : List Char :=
  (base.toList.reverse.dropWhile (· == '/')).reverse

/-- The link of a code: one slash stands between base and code, however many
slashes the base ends in. -/
def linkUnder (code : ShortCode) (base : String) : String :=
  String.ofList (withoutTrailingSlashes base ++ '/' :: code.text.toList)

/-- Codes are ordered by the bytes of their text. UTF-8 keeps the order of code
points, so comparing characters gives that order. -/
def order : List Char → List Char → Ordering
  | [], [] => .eq
  | [], _ :: _ => .lt
  | _ :: _, [] => .gt
  | a :: as, b :: bs => (compare a.val b.val).then (order as bs)

def compareTo (code other : ShortCode) : Ordering :=
  order code.text.toList other.text.toList

end ShortCode

end ShortLinks
