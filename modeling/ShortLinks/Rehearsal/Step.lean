import ShortLinks.Database.Table
import ShortLinks.Service

/-!
# Steps and replies

The steps that a rehearsal consists of, and what each of them answers. Some steps
go to the store itself, some to a pipeline or a service on it, and some change the
circumstances: the gate, faults to come, the disk, the database behind the store's
back.
-/

namespace ShortLinks.Rehearsal

set_option autoImplicit false

/-- What is done to the memory that a database has of its migration. -/
inductive Tampering
  | dirty
  | checksum
  | unknown
  | forget
  deriving DecidableEq, Repr

inductive Upset
  | addRow (row : Row)
  | dropTable
  | blockUpdate (code : ShortCode)
  | blockInsert (code : ShortCode)
  | tamper (how : Tampering)
  deriving DecidableEq, Repr

inductive StoreStep
  | put (code : ShortCode) (url owner : String)
  | putBatch (entries : List BatchEntry) (owner : String)
  | markDeleted (codes : List ShortCode) (owner : String)
  | get (code : ShortCode)
  | findUrl (url : String)
  | listByOwner (owner : String)
  | stats
  | probe (deadline : Nat) (busy : Bool)
  | shutdown
  | size
  | journalPath
  | race (puts : List (BatchEntry × String))
  | migrate
  | upset (what : Upset)
  deriving DecidableEq, Repr

inductive PipelineStep
  | start (settings : DeletionSettings)
  | accept (request : Deletion.Request) (times : Nat)
  | queued
  | close (kind : Deletion.Closing)
  | drop
  | describe
  deriving DecidableEq, Repr

inductive ServiceStep
  | start (settings : ServiceSettings) (codes : CodeSupply)
  | shorten (url owner : String)
  | shortenBatch (items : List BatchItem) (owner : String)
  | resolve (code : ShortCode)
  | userUrls (owner : String)
  | deleteUrls (request : Deletion.Request)
  | ping (busy : Bool)
  | stats
  | queued
  | describe
  | storeGet (code : ShortCode)
  | close (kind : Deletion.Closing)
  deriving DecidableEq, Repr

inductive Circumstance
  | reopen
  | log
  | appendLog (bytes : Text.Bytes)
  | limitLog (size : Option Nat)
  | closeGate
  | openGate (permits : Option Nat)
  | calls
  | fault (method : StoreMethod) (cause : StorageError)
  | crash
  | tasks
  deriving DecidableEq, Repr

inductive Step
  | store (step : StoreStep)
  | pipeline (step : PipelineStep)
  | service (step : ServiceStep)
  | around (step : Circumstance)
  deriving DecidableEq, Repr

/-- The answer to a step. A call that does not come back becomes a task, whose
answer may follow. -/
inductive Reply
  | done
  | failed (cause : StorageError)
  | refused (cause : ServiceError)
  | url (found : Option String)
  | code (found : Option ShortCode)
  | records (records : List LinkRecord)
  | stats (stats : StoreStats)
  | size (records : Nat)
  | path (path description : String)
  | outcomes (outcomes : List (Except StorageError Unit))
  | log (content : Option String)
  | calls (begun ended : Nat)
  | task (id : Nat)
  | tasks (answers : List (Option Reply))
  | tally (accepted waiting rejected : Nat)
  | queued (requests : Nat)
  | description (text : String)
  | shortened (outcome : Shortened)
  | batchLinks (links : List BatchLink)
  | ownedLinks (links : List OwnedLink)
  | notOpen
  | unusable

namespace Reply

def ofStore {α : Type} (present : α → Reply) : Except StorageError α → Reply
  | .ok answer => present answer
  | .error cause => .failed cause

def ofService {α : Type} (present : α → Reply) : Except ServiceError α → Reply
  | .ok answer => present answer
  | .error cause => .refused cause

end Reply

end ShortLinks.Rehearsal
