import ShortLinks.Code

/-!
# Records and what requests carry

A record maps a short code to a URL for its owner. The empty owner is
anonymous. A record is never removed: deleting it sets its tombstone.
-/

namespace ShortLinks

set_option autoImplicit false

structure LinkRecord where
  code : ShortCode
  url : String
  owner : String
  deleted : Bool
  deriving DecidableEq, Repr, Inhabited

structure BatchEntry where
  code : ShortCode
  url : String
  deriving DecidableEq, Repr

/-- How many records a store holds, tombstones included, and how many owners
other than the anonymous one have any. -/
structure StoreStats where
  urls : Nat
  users : Nat
  deriving DecidableEq, Repr

structure BatchItem where
  correlation : String
  url : String
  deriving DecidableEq, Repr

structure BatchLink where
  correlation : String
  link : String
  deriving DecidableEq, Repr

structure OwnedLink where
  link : String
  url : String
  deriving DecidableEq, Repr

end ShortLinks
