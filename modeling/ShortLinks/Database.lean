import ShortLinks.Database.Migration
import ShortLinks.Notice

/-!
# The database

A store kept in a table. Its constraints find conflicts. A batch is one
transaction and stores all entries or none; a deletion is one transaction too,
but commits what succeeded of it. Once the connections are closed every call is
refused.
-/

namespace ShortLinks

set_option autoImplicit false

structure Database where
  file : DatabaseFile
  connected : Bool
  deriving DecidableEq, Repr

namespace Database

def closedReason : String := "attempted to acquire a connection on a closed pool"

def closedError : StorageError := .unavailable closedReason

def statementError (error : StatementError) : StorageError := .query error.message

def columnError (column : String) (flaw : CellFlaw) : StorageError :=
  .invalidData ("error occurred while decoding column \"" ++ column ++ "\": " ++ flaw.message)

def table (database : Database) : Except StorageError LinkTable :=
  if !database.connected then .error closedError
  else
    match database.file.table with
    | none => .error (statementError .noTable)
    | some table => .ok table

def withTable (database : Database) (table : LinkTable) : Database :=
  { database with file := { database.file with table := some table } }

def textColumn (column : String) (cell : Cell) : Except StorageError String :=
  cell.asText.mapError (columnError column)

def flagColumn (column : String) (cell : Cell) : Except StorageError Bool :=
  cell.asFlag.mapError (columnError column)

/-- The tombstone is read first: the URL of a deleted row is not looked at. -/
def get (database : Database) (code : ShortCode) : Except StorageError (Option String) := do
  let table ← database.table
  match table.rows.find? (·.hasCode code) with
  | none => return none
  | some row =>
      if ← flagColumn "is_deleted" row.deleted then throw (.deleted code.text)
      return some (← textColumn "orig_url" row.url)

def findUrl (database : Database) (url : String) : Except StorageError (Option ShortCode) := do
  let table ← database.table
  match table.rows.find? (·.hasUrl url) with
  | none => return none
  | some row => return some ⟨← textColumn "short_url" row.code⟩

def recordOf (owner : String) (row : Row) : Except StorageError LinkRecord := do
  let code ← textColumn "short_url" row.code
  let url ← textColumn "orig_url" row.url
  let deleted ← flagColumn "is_deleted" row.deleted
  return ⟨⟨code⟩, url, owner, deleted⟩

def listByOwner (database : Database) (owner : String) :
    Except StorageError (List LinkRecord) := do
  let table ← database.table
  (table.rows.filter (·.hasOwner owner)).mapM (recordOf owner)

def stats (database : Database) : Except StorageError StoreStats := do
  let table ← database.table
  let owners := (table.rows.map Row.owner).filter (· != Cell.ofText "")
  return ⟨table.rows.length, owners.eraseDups.length⟩

/-- Probes a connection. If all connections are busy the deadline passes. -/
def probe (database : Database) (deadline : Nat) (busy : Bool) : Except StorageError Unit :=
  if !database.connected then .error closedError
  else if busy then
    .error (.timeout ("health check exceeded " ++ toString deadline ++ "ms"))
  else .ok ()

/-- What the first statement of a put leads to: an answer, or a second statement
that tells whether the URL or the code was taken. -/
inductive Attempt
  | settled (answer : Except StorageError Unit)
  | violated
  deriving Repr

def attempt (database : Database) (code : ShortCode) (url owner : String) :
    Attempt × Database :=
  match database.table with
  | .error error => (.settled (.error error), database)
  | .ok table =>
      match table.insert code url owner with
      | .ok (true, next) => (.settled (.ok ()), database.withTable next)
      | .ok (false, _) => (.settled (.error (.conflict url)), database)
      | .error .codeTaken => (.violated, database)
      | .error error => (.settled (.error (statementError error)), database)

def resolveViolation (database : Database) (code : ShortCode) (url : String) :
    Except StorageError Unit :=
  match database.findUrl url with
  | .error error => .error error
  | .ok (some _) => .error (.conflict url)
  | .ok none => .error (.codeCollision code.text)

def put (database : Database) (code : ShortCode) (url owner : String) :
    Except StorageError Unit × Database :=
  match database.attempt code url owner with
  | (.settled answer, next) => (answer, next)
  | (.violated, next) => (next.resolveViolation code url, next)

def insertAll (owner : String) : List BatchEntry → LinkTable → Except StorageError LinkTable
  | [], table => .ok table
  | entry :: entries, table =>
      match table.insert entry.code entry.url owner with
      | .ok (true, next) => insertAll owner entries next
      | .ok (false, _) => .error (.conflict entry.url)
      | .error .codeTaken => .error (.codeCollision entry.code.text)
      | .error error => .error (statementError error)

def putTogether (database : Database) (entries : List BatchEntry) (owner : String) :
    Except StorageError Unit × Database :=
  if !database.connected then (.error closedError, database)
  else
    match entries, database.file.table with
    | [], _ => (.ok (), database)
    | _ :: _, none => (.error (statementError .noTable), database)
    | _ :: _, some table =>
        match insertAll owner entries table with
        | .error error => (.error error, database)
        | .ok next => (.ok (), database.withTable next)

/-- Buries code by code inside a transaction. A statement that fails is noted
and passed over. -/
def buryAll (owner : String) : List ShortCode → Option LinkTable →
    Option LinkTable × List Notice
  | [], table => (table, [])
  | code :: codes, table =>
      let (next, notices) : Option LinkTable × List Notice :=
        match table with
        | none => (none, [.markFailed code owner StatementError.noTable.message])
        | some rows =>
            match rows.bury code owner with
            | .ok changed => (some changed, [])
            | .error error => (some rows, [.markFailed code owner error.message])
      let (last, later) := buryAll owner codes next
      (last, notices ++ later)

def markDeleted (database : Database) (codes : List ShortCode) (owner : String) :
    Except StorageError Unit × Database × List Notice :=
  if !database.connected then (.error closedError, database, [])
  else
    let (table, notices) := buryAll owner codes database.file.table
    (.ok (), { database with file := { database.file with table } }, notices)

def shutdown (database : Database) : Database := { database with connected := false }

def migrate (database : Database) : Except StorageError Unit × Database :=
  if !database.connected then
    (.error (.migration ("while executing migrations: " ++ closedReason)), database)
  else
    let (outcome, file) := database.file.migrate
    (outcome, { database with file })

def connect (file : DatabaseFile) : Except StorageError Database × DatabaseFile :=
  match file.migrate with
  | (.error error, same) => (.error error, same)
  | (.ok _, migrated) => (.ok ⟨migrated, true⟩, migrated)

end Database

end ShortLinks
