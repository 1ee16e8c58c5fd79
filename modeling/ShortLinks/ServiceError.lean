import ShortLinks.StorageError

/-!
# Service errors

What a request to the service can fail with. The outcomes that a store reports
about its data keep their meaning; every other storage error is carried along.
-/

namespace ShortLinks

set_option autoImplicit false

inductive ServiceError
  | gone (code : String)
  | conflict (url : String)
  | codeCollision (code : String)
  | inconsistent (url : String)
  | pipelineClosed
  | storage (cause : StorageError)
  deriving DecidableEq, Repr

namespace ServiceError

def message : ServiceError → String
  | gone code => "short code has been deleted: " ++ code
  | conflict url => "original url already shortened: " ++ url
  | codeCollision code => "short code already taken: " ++ code
  | inconsistent url => "conflicting url has no short code: " ++ url
  | pipelineClosed => "deletion pipeline is closed"
  | storage cause => "storage error: " ++ cause.message

def ofStorage : StorageError → ServiceError
  | .deleted code => .gone code
  | .conflict url => .conflict url
  | .codeCollision code => .codeCollision code
  | cause => .storage cause

end ServiceError

end ShortLinks
