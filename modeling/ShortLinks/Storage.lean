import ShortLinks.Backend
import ShortLinks.Database.Location
import ShortLinks.Folder
import ShortLinks.Settings

/-!
# Storage

Opening a backend on the files of a folder, and keeping its file up to date. A
journal or database that does not exist is made; one that cannot be read is
refused and stays as it is.
-/

namespace ShortLinks

set_option autoImplicit false

/-- An open backend beside the name of the file that holds what it keeps. -/
structure Store where
  backend : Backend
  home : Option String
  deriving DecidableEq, Repr

structure Opened where
  outcome : Except StorageError Store
  folder : Folder
  notices : List Notice

namespace Store

def inMemory : Store := ⟨.memory Index.empty, none⟩

def save (store : Store) (folder : Folder) : Folder :=
  match store.home, store.backend with
  | some name, .journal _ journal => folder.write name (.plain journal.log)
  | some name, .database database => folder.write name (.database database.file)
  | _, _ => folder

def openJournal (folder : Folder) (path : String) : Opened :=
  match folder.locate path with
  | .error fault => ⟨.error (.io "open" fault.message), folder, []⟩
  | .ok name =>
      match folder.content? name with
      | some (.database _) => ⟨.error (Replay.lineError 1 .notText), folder, []⟩
      | content =>
          let log :=
            match content with
            | some (.plain bytes) => bytes
            | _ => []
          let opened := Journal.ofLog path log
          ⟨opened.outcome.map fun journal => ⟨.journal path journal, some name⟩,
            folder.write name (.plain log), opened.notices⟩

def cannotOpen : StorageError :=
  .query "error returned from database: (code: 14) unable to open database file"

def notDatabase : StorageError :=
  .query "error returned from database: (code: 26) file is not a database"

/-- What a database finds in a file. A file of at most one byte is an empty
database. -/
def databaseIn? : FileContent → Option DatabaseFile
  | .database file => some file
  | .plain bytes => if bytes.length ≤ 1 then some DatabaseFile.fresh else none

def connect (folder : Folder) (home : Option String) (file : DatabaseFile) : Opened :=
  match Database.connect file with
  | (.error error, _) => ⟨.error error, folder, []⟩
  | (.ok database, _) =>
      let store : Store := ⟨.database database, home⟩
      ⟨.ok store, store.save folder, [.databaseConnected]⟩

/-- Whether a database ends with the program. Others that do, by an address in the name or by
`vfs=memdb`, are taken for lasting ones. -/
def isVolatile (location : DatabaseLocation) : Bool :=
  location.inMemory || location.path.isEmpty

def openDatabase (folder : Folder) (location : DatabaseLocation) : Opened :=
  if isVolatile location then connect folder none .fresh
  else
    match folder.locate location.path with
    | .error _ => ⟨.error cannotOpen, folder, []⟩
    | .ok name =>
        match folder.content? name with
        | none =>
            if location.readOnly then ⟨.error cannotOpen, folder, []⟩
            else connect folder (some name) .fresh
        | some content =>
            match databaseIn? content with
            | none => ⟨.error notDatabase, folder, []⟩
            | some file => connect folder (some name) file

def openChosen (folder : Folder) (settings : StorageSettings) : Opened :=
  match settings.choice with
  | .memory => ⟨.ok inMemory, folder, [.usingMemory]⟩
  | .file path =>
      let opened := openJournal folder path
      { opened with notices := .usingFile path :: opened.notices }
  | .database dsn =>
      match DatabaseLocation.parse dsn with
      | .error fault => ⟨.error (.query fault.message), folder, [.usingDatabase]⟩
      | .ok location =>
          let opened := openDatabase folder location
          { opened with notices := .usingDatabase :: opened.notices }

def perform (disk : Disk) (store : Store) {α : Type} (call : StoreCall α) :
    Except StorageError α × Store × List Notice :=
  let answered := store.backend.perform disk call
  (answered.answer, { store with backend := answered.backend }, answered.notices)

end Store

/-- The path of the file that a choice keeps its records in. -/
def StorageChoice.path? : StorageChoice → Option String
  | memory => none
  | file path => some path
  | database dsn =>
      match DatabaseLocation.parse dsn with
      | .error _ => none
      | .ok location => if Store.isVolatile location then none else some location.path

end ShortLinks
