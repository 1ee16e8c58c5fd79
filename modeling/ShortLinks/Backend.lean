import ShortLinks.Database
import ShortLinks.Journal
import ShortLinks.Ledger
import ShortLinks.StoreCall
import ShortLinks.Text.Quoted

/-!
# Backends

The three ways to keep a store behind one set of calls: in memory, in a journal
at a path, or in a database. Memory and journal keep the leading entries of a
batch that fails; the database keeps none.
-/

namespace ShortLinks

set_option autoImplicit false

inductive Backend
  | memory (index : Index)
  | journal (path : String) (journal : Journal)
  | database (database : Database)
  deriving DecidableEq, Repr

structure Answered (α : Type) where
  answer : Except StorageError α
  backend : Backend
  notices : List Notice

namespace Backend

/-- What a backend leaves of a batch that fails. -/
def batchPolicy : Backend → BatchPolicy
  | memory _ | journal _ _ => .keepLeading
  | database _ => .allOrNothing

def performMemory (index : Index) {α : Type} : StoreCall α → Except StorageError α × Index
  | .put code url owner => index.insert code url owner
  | .putBatch entries owner => index.insertLeading owner entries
  | .markDeleted codes owner => (.ok (), index.buryAll codes owner)
  | .get code => (index.get code, index)
  | .findUrl url => (.ok (index.findUrl url), index)
  | .listByOwner owner => (.ok (index.listByOwner owner), index)
  | .stats => (.ok index.stats, index)
  | .probe _ _ => (.ok (), index)
  | .shutdown => (.ok (), index)

def performJournal (disk : Disk) (journal : Journal) {α : Type} :
    StoreCall α → Except StorageError α × Journal
  | .put code url owner => journal.put disk code url owner
  | .putBatch entries owner => journal.putLeading disk owner entries
  | .markDeleted codes owner => journal.markDeleted disk owner codes
  | .get code => (journal.index.get code, journal)
  | .findUrl url => (.ok (journal.index.findUrl url), journal)
  | .listByOwner owner => (.ok (journal.index.listByOwner owner), journal)
  | .stats => (.ok journal.index.stats, journal)
  | .probe _ _ => (.ok (), journal)
  | .shutdown => (.ok (), journal)

def performDatabase (database : Database) {α : Type} :
    StoreCall α → Except StorageError α × Database × List Notice
  | .put code url owner =>
      let (answer, next) := database.put code url owner
      (answer, next, [])
  | .putBatch entries owner =>
      let (answer, next) := database.putTogether entries owner
      (answer, next, [])
  | .markDeleted codes owner => database.markDeleted codes owner
  | .get code => (database.get code, database, [])
  | .findUrl url => (database.findUrl url, database, [])
  | .listByOwner owner => (database.listByOwner owner, database, [])
  | .stats => (database.stats, database, [])
  | .probe deadline busy => (database.probe deadline busy, database, [])
  | .shutdown => (.ok (), database.shutdown, [])

def describeJournal (path : String) : String :=
  "FileRepository \x7b path: " ++ Text.quoted path ++ ", .. \x7d"

def perform (disk : Disk) (backend : Backend) {α : Type} (call : StoreCall α) :
    Answered α :=
  match backend with
  | memory index =>
      let (answer, next) := performMemory index call
      ⟨answer, .memory next, []⟩
  | journal path current =>
      let (answer, next) := performJournal disk current call
      ⟨answer, .journal path next, []⟩
  | database current =>
      let (answer, next, notices) := performDatabase current call
      ⟨answer, .database next, notices⟩

end Backend

end ShortLinks
