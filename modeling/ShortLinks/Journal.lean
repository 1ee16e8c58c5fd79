import ShortLinks.Index
import ShortLinks.Notice
import ShortLinks.Journal.Line

/-!
# The journal

A store kept as an append-only log of lines. Opening a log replays it into an
index; every change appends its line first and changes the index only if the
whole line was written. A write that fails part way is cut back, so the log
keeps ending on a line boundary. Order in the log is order in the index.
-/

namespace ShortLinks

set_option autoImplicit false

open Text (Bytes)

structure Noted (α : Type) where
  outcome : α
  notices : List Notice
  deriving DecidableEq, Repr

namespace Replay

/-- What a line changes. The first record of a code or a URL wins, and a
tombstone concerns only the record of the same code and owner. -/
def apply (index : Index) (line : JournalLine) : Noted Index :=
  if line.deleted then ⟨index.bury line.code line.owner, []⟩
  else
    match index.insert line.code line.url line.owner with
    | (.ok _, next) => ⟨next, []⟩
    | (.error (.conflict _), same) => ⟨same, [.duplicateUrl line.code line.url]⟩
    | (.error _, same) => ⟨same, [.duplicateCode line.code line.url]⟩

/-- The error that names a line of the log. The place within that line, which is shown at the end
of the text, is left out. -/
def lineError (number : Nat) : JournalLine.Flaw → StorageError
  | .notText => .io "replay" "stream did not contain valid UTF-8"
  | .notRecord fault =>
      .invalidData ("log line " ++ toString number ++ ": " ++ fault.message)

/-- Replays lines from a line number on. Blank lines count but change nothing. -/
def lines : Nat → Index → List Bytes → Noted (Except StorageError Index)
  | _, index, [] => ⟨.ok index, []⟩
  | number, index, line :: rest =>
      match JournalLine.read line with
      | .error flaw => ⟨.error (lineError number flaw), []⟩
      | .ok none => lines (number + 1) index rest
      | .ok (some read) =>
          let applied := apply index read
          let behind := lines (number + 1) applied.outcome rest
          ⟨behind.outcome, applied.notices ++ behind.notices⟩

end Replay

def replay (log : Bytes) : Noted (Except StorageError Index) :=
  Replay.lines 1 Index.empty (Text.splitLines log)

/-- A write that fails part way, with the operating system's cause. -/
structure BrokenWrite where
  stored : Nat
  cause : String
  deriving DecidableEq, Repr

/-- Whether the disk breaks off an append, given the size of the file and the number of
bytes. -/
abbrev Disk := Nat → Nat → Option BrokenWrite

namespace Disk

def roomy : Disk := fun _ _ => none

def limited (limit : Nat) : Disk := fun size added =>
  if size + added ≤ limit then none
  else some ⟨limit - size, "File too large (os error 27)"⟩

end Disk

structure Journal where
  log : Bytes
  index : Index
  deriving DecidableEq, Repr

namespace Journal

def appendError (cause : String) : StorageError := .io "append" cause

/-- Appends bytes to a log. What a failing write left behind is cut off again. -/
def appendBytes (disk : Disk) (log added : Bytes) : Except StorageError Unit × Bytes :=
  match disk log.length added.length with
  | none => (.ok (), log ++ added)
  | some broken =>
      (.error (appendError broken.cause), (log ++ added.take broken.stored).take log.length)

def append (disk : Disk) (journal : Journal) (line : JournalLine) :
    Except StorageError Unit × Journal :=
  let (outcome, log) := appendBytes disk journal.log line.bytes
  (outcome, { journal with log })

/-- Appends the record, then indexes it. Nothing changes if either fails. -/
def put (disk : Disk) (journal : Journal) (code : ShortCode) (url owner : String) :
    Except StorageError Unit × Journal :=
  match journal.index.refusal? code url with
  | some error => (.error error, journal)
  | none =>
      match journal.append disk (.live code url owner) with
      | (.error error, same) => (.error error, same)
      | (.ok _, written) =>
          (.ok (), { written with index := written.index.store code url owner })

def putLeading (disk : Disk) (owner : String) : List BatchEntry → Journal →
    Except StorageError Unit × Journal
  | [], journal => (.ok (), journal)
  | entry :: entries, journal =>
      match journal.put disk entry.code entry.url owner with
      | (.error error, same) => (.error error, same)
      | (.ok _, next) => putLeading disk owner entries next

def urlOf (journal : Journal) (code : ShortCode) : String :=
  ((journal.index.byCode.find? code).map IndexEntry.url).getD ""

/-- Appends the tombstone of a live record of the owner, then sets it. Codes
without such a record are passed over. -/
def bury (disk : Disk) (journal : Journal) (code : ShortCode) (owner : String) :
    Except StorageError Unit × Journal :=
  if journal.index.canBury code owner then
    match journal.append disk (.tombstone code (journal.urlOf code) owner) with
    | (.error error, same) => (.error error, same)
    | (.ok _, written) => (.ok (), { written with index := written.index.bury code owner })
  else (.ok (), journal)

def markDeleted (disk : Disk) (owner : String) : List ShortCode → Journal →
    Except StorageError Unit × Journal
  | [], journal => (.ok (), journal)
  | code :: codes, journal =>
      match journal.bury disk code owner with
      | (.error error, same) => (.error error, same)
      | (.ok _, next) => markDeleted disk owner codes next

def ofLog (path : String) (log : Bytes) : Noted (Except StorageError Journal) :=
  let replayed := replay log
  match replayed.outcome with
  | .error error => ⟨.error error, replayed.notices⟩
  | .ok index =>
      ⟨.ok ⟨log, index⟩, replayed.notices ++ [.journalReplayed path index.size]⟩

end Journal

end ShortLinks
