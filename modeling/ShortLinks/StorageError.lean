import ShortLinks.Code

/-!
# Storage errors

Why a store refuses or fails. The first three causes come from the data and are
resolved by the caller; the others are failures of what lies below the store.
-/

namespace ShortLinks

set_option autoImplicit false

inductive StorageError
  | deleted (code : String)
  | conflict (url : String)
  | codeCollision (code : String)
  | unavailable (reason : String)
  | timeout (reason : String)
  | io (operation reason : String)
  | query (reason : String)
  | invalidData (reason : String)
  | migration (reason : String)
  deriving DecidableEq, Repr

namespace StorageError

def message : StorageError → String
  | deleted code => "short code has been deleted: " ++ code
  | conflict url => "original url already shortened: " ++ url
  | codeCollision code => "short code already taken: " ++ code
  | unavailable reason => "storage backend unavailable: " ++ reason
  | timeout reason => "storage operation timed out: " ++ reason
  | io operation reason => "storage i/o failed during " ++ operation ++ ": " ++ reason
  | query reason => "storage query failed: " ++ reason
  | invalidData reason => "stored data is invalid: " ++ reason
  | migration reason => "schema migration failed: " ++ reason

/-- Whether the failure lies below the store, so that a retry may succeed. -/
def transient : StorageError → Bool
  | unavailable _ | timeout _ | io _ _ | query _ | invalidData _ => true
  | deleted _ | conflict _ | codeCollision _ | migration _ => false

end StorageError

end ShortLinks
