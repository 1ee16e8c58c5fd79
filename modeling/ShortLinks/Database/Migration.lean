import ShortLinks.Database.Table
import ShortLinks.StorageError

/-!
# The schema and its migration

A database remembers which migration built its table. A fresh database gets the
table; one whose memory disagrees with the migration known here is refused.
-/

namespace ShortLinks

set_option autoImplicit false

/-- The version of the one migration there is. -/
def migrationVersion : Nat := 20250101000000

structure MigrationMark where
  version : Nat
  unchanged : Bool
  finished : Bool
  deriving DecidableEq, Repr

/-- The content of a database file. The table may have been dropped. -/
structure DatabaseFile where
  mark : Option MigrationMark
  table : Option LinkTable
  deriving DecidableEq, Repr

inductive MigrationFault
  | unfinished (version : Nat)
  | modified (version : Nat)
  | unknown (version : Nat)
  deriving DecidableEq, Repr

def MigrationFault.message : MigrationFault → String
  | unfinished version =>
      "migration " ++ toString version ++
        " is partially applied; fix and remove row from `_sqlx_migrations` table"
  | modified version =>
      "migration " ++ toString version ++ " was previously applied but has been modified"
  | unknown version =>
      "migration " ++ toString version ++
        " was previously applied but is missing in the resolved migrations"

namespace MigrationMark

def done : MigrationMark := ⟨migrationVersion, true, true⟩

def fault? (mark : MigrationMark) : Option MigrationFault :=
  if !mark.finished then some (.unfinished mark.version)
  else if mark.version ≠ migrationVersion then some (.unknown mark.version)
  else if !mark.unchanged then some (.modified mark.version)
  else none

end MigrationMark

namespace DatabaseFile

def fresh : DatabaseFile := ⟨none, none⟩

/-- Builds the table of a database that has not been migrated. A table that is
already there is kept. -/
def migrate (file : DatabaseFile) : Except StorageError Unit × DatabaseFile :=
  match file.mark with
  | none => (.ok (), ⟨some .done, some (file.table.getD .empty)⟩)
  | some mark =>
      match mark.fault? with
      | none => (.ok (), file)
      | some fault => (.error (.migration fault.message), file)

end DatabaseFile

end ShortLinks
