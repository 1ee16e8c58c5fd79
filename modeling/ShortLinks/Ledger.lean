import ShortLinks.StoreCall

/-!
# The ledger

What a store is, without regard to how it is kept: the records in the order of
their creation. A URL once stored stays stored, and so does a code; deleting a
record only sets its tombstone. Every backend answers as the ledger does. They
differ in one point, what is left of a batch that fails.
-/

namespace ShortLinks

set_option autoImplicit false

/-- What is left of a batch that fails: the entries before the one that is refused,
or nothing. -/
inductive BatchPolicy
  | keepLeading
  | allOrNothing
  deriving DecidableEq, Repr

structure Ledger where
  records : List LinkRecord
  deriving DecidableEq, Repr

namespace Ledger

def empty : Ledger := ⟨[]⟩

/-- A taken URL is reported before a taken code. -/
def refusal? (ledger : Ledger) (code : ShortCode) (url : String) : Option StorageError :=
  if ledger.records.any (·.url == url) then some (.conflict url)
  else if ledger.records.any (·.code == code) then some (.codeCollision code.text)
  else none

def put (ledger : Ledger) (code : ShortCode) (url owner : String) :
    Except StorageError Unit × Ledger :=
  match ledger.refusal? code url with
  | some error => (.error error, ledger)
  | none => (.ok (), ⟨ledger.records ++ [⟨code, url, owner, false⟩]⟩)

/-- Stops at the first entry that is refused and keeps the entries before it. -/
def putLeading (owner : String) : List BatchEntry → Ledger →
    Except StorageError Unit × Ledger
  | [], ledger => (.ok (), ledger)
  | entry :: entries, ledger =>
      match ledger.put entry.code entry.url owner with
      | (.error error, same) => (.error error, same)
      | (.ok _, next) => putLeading owner entries next

def putTogether (owner : String) (entries : List BatchEntry) (ledger : Ledger) :
    Except StorageError Unit × Ledger :=
  match putLeading owner entries ledger with
  | (.ok done, next) => (.ok done, next)
  | (.error error, _) => (.error error, ledger)

def markDeleted (ledger : Ledger) (codes : List ShortCode) (owner : String) : Ledger :=
  ⟨ledger.records.map fun record =>
    if record.owner = owner ∧ record.code ∈ codes then { record with deleted := true }
    else record⟩

def get (ledger : Ledger) (code : ShortCode) : Except StorageError (Option String) :=
  match ledger.records.find? (·.code == code) with
  | none => .ok none
  | some record => if record.deleted then .error (.deleted code.text) else .ok (some record.url)

def findUrl (ledger : Ledger) (url : String) : Option ShortCode :=
  (ledger.records.find? (·.url == url)).map LinkRecord.code

def listByOwner (ledger : Ledger) (owner : String) : List LinkRecord :=
  ledger.records.filter (·.owner == owner)

def stats (ledger : Ledger) : StoreStats where
  urls := ledger.records.length
  users := ((ledger.records.map LinkRecord.owner).filter (· != "")).eraseDups.length

def putBatch (ledger : Ledger) (policy : BatchPolicy) (entries : List BatchEntry)
    (owner : String) : Except StorageError Unit × Ledger :=
  match policy with
  | .keepLeading => putLeading owner entries ledger
  | .allOrNothing => putTogether owner entries ledger

/-- The answer of a ledger to a call. It is always there and never stops. -/
def perform (policy : BatchPolicy) (ledger : Ledger) {α : Type} :
    StoreCall α → Except StorageError α × Ledger
  | .put code url owner => ledger.put code url owner
  | .putBatch entries owner => ledger.putBatch policy entries owner
  | .markDeleted codes owner => (.ok (), ledger.markDeleted codes owner)
  | .get code => (ledger.get code, ledger)
  | .findUrl url => (.ok (ledger.findUrl url), ledger)
  | .listByOwner owner => (.ok (ledger.listByOwner owner), ledger)
  | .stats => (.ok ledger.stats, ledger)
  | .probe _ _ => (.ok (), ledger)
  | .shutdown => (.ok (), ledger)

end Ledger

end ShortLinks
