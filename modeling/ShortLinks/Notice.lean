import ShortLinks.StorageError

/-!
# Notices

What the program reports about itself while it works, as data. Each notice has
one line of text: its level, its message, and its fields in a fixed order.
-/

namespace ShortLinks

set_option autoImplicit false

inductive Notice
  | usingDatabase
  | usingFile (path : String)
  | usingMemory
  | databaseConnected
  | journalReplayed (path : String) (records : Nat)
  | duplicateCode (code : ShortCode) (url : String)
  | duplicateUrl (code : ShortCode) (url : String)
  | markFailed (code : ShortCode) (owner : String) (reason : String)
  | pipelineStarted (workers capacity : Nat)
  | requestFailed (owner : String) (codes : Nat) (cause : StorageError)
  | workerPanicked
  | requestsDiscarded (count : Nat)
  | pipelineStopped
  | pipelineDrained
  | serviceStopped
  deriving DecidableEq, Repr

namespace Notice

def line : Notice → String
  | usingDatabase => "INFO using database storage"
  | usingFile path => "INFO using file storage path=" ++ path
  | usingMemory => "INFO using in-memory storage"
  | databaseConnected => "INFO connected to database"
  | journalReplayed path records =>
      "INFO replayed storage file path=" ++ path ++ " records=" ++ toString records
  | duplicateCode code url =>
      "WARN duplicate short code in storage file code=" ++ code.text ++
        " original_url=" ++ url
  | duplicateUrl code url =>
      "WARN duplicate original url in storage file code=" ++ code.text ++
        " original_url=" ++ url
  | markFailed code owner reason =>
      "ERROR failed to mark short code deleted code=" ++ code.text ++
        " owner=" ++ owner ++ " error=" ++ reason
  | pipelineStarted workers capacity =>
      "INFO deletion pipeline started workers=" ++ toString workers ++
        " queue_capacity=" ++ toString capacity
  | requestFailed owner codes cause =>
      "ERROR failed to apply deletion request owner=" ++ owner ++
        " codes=" ++ toString codes ++ " error=" ++ cause.message
  | workerPanicked => "ERROR deletion worker panicked"
  | requestsDiscarded count =>
      "WARN discarded queued deletion requests discarded=" ++ toString count
  | pipelineStopped => "INFO deletion pipeline stopped"
  | pipelineDrained => "INFO deletion pipeline drained"
  | serviceStopped => "INFO shortener service stopped"

end Notice

end ShortLinks
