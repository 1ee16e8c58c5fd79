import ShortLinks.Database.Cell
import ShortLinks.Record

/-!
# The table of links

The table that holds the records in a database, with the two constraints that
decide what an insert does: a taken URL makes it do nothing, and otherwise a
taken code violates the key. Triggers may block single codes. Each statement is
one step: it is done whole or not at all.
-/

namespace ShortLinks

set_option autoImplicit false

structure Row where
  code : Cell
  url : Cell
  owner : Cell
  deleted : Cell
  deriving DecidableEq, Repr

structure LinkTable where
  rows : List Row
  blockedInserts : List ShortCode
  blockedUpdates : List ShortCode
  deriving DecidableEq, Repr

inductive StatementError
  | noTable
  | blocked
  | codeTaken
  deriving DecidableEq, Repr

def StatementError.message : StatementError → String
  | noTable => "error returned from database: (code: 1) no such table: short2orig"
  | blocked => "error returned from database: (code: 1811) blocked"
  | codeTaken =>
      "error returned from database: (code: 1555) UNIQUE constraint failed: short2orig.short_url"

namespace Row

def live (code : ShortCode) (url owner : String) : Row :=
  ⟨.ofText code.text, .ofText url, .ofText owner, .integer 0⟩

def hasCode (row : Row) (code : ShortCode) : Bool := row.code == .ofText code.text

def hasUrl (row : Row) (url : String) : Bool := row.url == .ofText url

def hasOwner (row : Row) (owner : String) : Bool := row.owner == .ofText owner

end Row

namespace LinkTable

def empty : LinkTable := ⟨[], [], []⟩

/-- Inserts a live row. The answer tells whether a row was added: none is if the
URL is taken. -/
def insert (table : LinkTable) (code : ShortCode) (url owner : String) :
    Except StatementError (Bool × LinkTable) :=
  if table.blockedInserts.contains code then .error .blocked
  else if table.rows.any (·.hasUrl url) then .ok (false, table)
  else if table.rows.any (·.hasCode code) then .error .codeTaken
  else .ok (true, { table with rows := table.rows ++ [Row.live code url owner] })

def bury (table : LinkTable) (code : ShortCode) (owner : String) :
    Except StatementError LinkTable :=
  let concerns (row : Row) : Bool := row.hasCode code && row.hasOwner owner
  if table.rows.any concerns && table.blockedUpdates.contains code then .error .blocked
  else
    .ok { table with
      rows := table.rows.map fun row =>
        if concerns row then { row with deleted := .integer 1 } else row }

/-- Inserts a row as it is given, each value as its column takes it. A row that
a constraint forbids is not inserted. -/
def insertRaw (table : LinkTable) (row : Row) : LinkTable :=
  let taken : Row :=
    ⟨row.code.inTextColumn, row.url.inTextColumn, row.owner.inTextColumn,
      row.deleted.inFlagColumn⟩
  let clash := table.rows.any fun other =>
    other.url == taken.url || (taken.code != .null && other.code == taken.code)
  if clash || taken.url == .null || taken.owner == .null || taken.deleted == .null then table
  else { table with rows := table.rows ++ [taken] }

end LinkTable

end ShortLinks
