import ShortLinks.Database
import ShortLinks.Proofs.LedgerIndex
import ShortLinks.Proofs.Utf8

/-!
# The table of a ledger

A ledger written as rows. What the constraints of the table decide is what the ledger
decides: a taken URL adds no row, and a taken code with a free URL violates the key. So a
database whose statements all succeed answers as the ledger does, and a batch that fails
leaves it as it was.
-/

namespace ShortLinks

set_option autoImplicit false

theorem Cell.ofText_inj {first second : String} :
    Cell.ofText first = Cell.ofText second ↔ first = second := by
  constructor
  · intro same
    exact Text.encode_injective (Cell.text.inj same)
  · intro same
    rw [same]

theorem Cell.asText_ofText (text : String) : (Cell.ofText text).asText = .ok text := by
  simp only [Cell.ofText, Cell.asText, Text.decode_encode]

namespace Row

def ofRecord (record : LinkRecord) : Row :=
  ⟨.ofText record.code.text, .ofText record.url, .ofText record.owner,
    .integer (if record.deleted then 1 else 0)⟩

theorem hasCode_ofRecord (record : LinkRecord) (code : ShortCode) :
    (ofRecord record).hasCode code = (record.code == code) := by
  rcases code with ⟨text⟩
  rcases record with ⟨⟨held⟩, url, owner, deleted⟩
  rw [Bool.eq_iff_iff]
  simp [hasCode, ofRecord, Cell.ofText_inj]

theorem hasUrl_ofRecord (record : LinkRecord) (url : String) :
    (ofRecord record).hasUrl url = (record.url == url) := by
  rw [Bool.eq_iff_iff]
  simp [hasUrl, ofRecord, Cell.ofText_inj]

theorem hasOwner_ofRecord (record : LinkRecord) (owner : String) :
    (ofRecord record).hasOwner owner = (record.owner == owner) := by
  rw [Bool.eq_iff_iff]
  simp [hasOwner, ofRecord, Cell.ofText_inj]

theorem flag_ofRecord (record : LinkRecord) :
    Database.flagColumn "is_deleted" (ofRecord record).deleted = .ok record.deleted := by
  cases deleted : record.deleted <;> simp [Database.flagColumn, ofRecord, deleted, Cell.asFlag,
    Except.mapError]

theorem url_ofRecord (record : LinkRecord) :
    Database.textColumn "orig_url" (ofRecord record).url = .ok record.url := by
  simp [Database.textColumn, ofRecord, Cell.asText_ofText, Except.mapError]

theorem code_ofRecord (record : LinkRecord) :
    Database.textColumn "short_url" (ofRecord record).code = .ok record.code.text := by
  simp [Database.textColumn, ofRecord, Cell.asText_ofText, Except.mapError]

theorem recordOf_ofRecord (record : LinkRecord) :
    Database.recordOf record.owner (ofRecord record) = .ok record := by
  simp only [Database.recordOf, code_ofRecord, url_ofRecord, flag_ofRecord]
  rfl

end Row

namespace Ledger

def table (ledger : Ledger) : LinkTable := ⟨ledger.records.map Row.ofRecord, [], []⟩

/-- A migrated database with the rows of a ledger, to which there are connections. -/
def database (ledger : Ledger) : Database := ⟨⟨some .done, some ledger.table⟩, true⟩

theorem connect_fresh : (Database.connect .fresh).1 = .ok empty.database := rfl

theorem database_table (ledger : Ledger) : ledger.database.table = .ok ledger.table := rfl

theorem table_any_url (ledger : Ledger) (url : String) :
    ledger.table.rows.any (·.hasUrl url) = ledger.records.any (·.url == url) := by
  simp [table, List.any_map, Function.comp_def, Row.hasUrl_ofRecord]

theorem table_any_code (ledger : Ledger) (code : ShortCode) :
    ledger.table.rows.any (·.hasCode code) = ledger.records.any (·.code == code) := by
  simp [table, List.any_map, Function.comp_def, Row.hasCode_ofRecord]

theorem database_get (ledger : Ledger) (code : ShortCode) :
    ledger.database.get code = ledger.get code := by
  have found : ledger.table.rows.find? (·.hasCode code) =
      (ledger.records.find? (·.code == code)).map Row.ofRecord := by
    simp only [table, List.find?_map, Function.comp_def, Row.hasCode_ofRecord]
  simp only [Database.get, database_table, Bind.bind, Except.bind, get, found]
  cases ledger.records.find? (·.code == code) with
  | none => rfl
  | some record =>
    simp only [Option.map_some, Row.flag_ofRecord, Row.url_ofRecord]
    cases record.deleted <;> rfl

theorem database_findUrl (ledger : Ledger) (url : String) :
    ledger.database.findUrl url = .ok (ledger.findUrl url) := by
  have found : ledger.table.rows.find? (·.hasUrl url) =
      (ledger.records.find? (·.url == url)).map Row.ofRecord := by
    simp only [table, List.find?_map, Function.comp_def, Row.hasUrl_ofRecord]
  simp only [Database.findUrl, database_table, Bind.bind, Except.bind, findUrl, found]
  cases ledger.records.find? (·.url == url) with
  | none => rfl
  | some record =>
    simp only [Option.map_some, Row.code_ofRecord]
    rfl

theorem rows_read (owner : String) (records : List LinkRecord)
    (owned : ∀ record ∈ records, record.owner = owner) :
    (records.map Row.ofRecord).mapM (Database.recordOf owner) = .ok records := by
  induction records with
  | nil => rfl
  | cons record records ih =>
    have first : Database.recordOf owner (Row.ofRecord record) = .ok record := by
      rw [← owned record List.mem_cons_self]
      exact Row.recordOf_ofRecord record
    have rest := ih fun other member => owned other (List.mem_cons_of_mem record member)
    rw [List.map_cons, List.mapM_cons, first, rest]
    rfl

theorem database_listByOwner (ledger : Ledger) (owner : String) :
    ledger.database.listByOwner owner = .ok (ledger.listByOwner owner) := by
  have listed : ledger.table.rows.filter (·.hasOwner owner) =
      (ledger.listByOwner owner).map Row.ofRecord := by
    simp only [table, List.filter_map, Function.comp_def, Row.hasOwner_ofRecord]
    rfl
  simp only [Database.listByOwner, database_table, Bind.bind, Except.bind, listed]
  apply rows_read
  intro record member
  simpa using List.of_mem_filter member

theorem database_stats (ledger : Ledger) : ledger.database.stats = .ok ledger.stats := by
  have injective : Function.Injective Cell.ofText := fun _ _ same => Cell.ofText_inj.1 same
  have owners : (ledger.table.rows.map Row.owner).filter (· != Cell.ofText "") =
      ((ledger.records.map LinkRecord.owner).filter (· != "")).map Cell.ofText := by
    rw [List.filter_map, List.filter_map, table, List.filter_map, List.map_map, List.map_map]
    have same : ∀ record : LinkRecord,
        ((Row.ofRecord record).owner != Cell.ofText "") = (record.owner != "") := by
      intro record
      rw [bne, bne, Bool.eq_iff_iff]
      simp [Row.ofRecord, Cell.ofText_inj]
    simp only [Function.comp_def, same]
    rfl
  simp only [Database.stats, database_table, Bind.bind, Except.bind, owners,
    eraseDups_map _ injective, List.length_map, stats]
  simp only [table, List.length_map]
  rfl

theorem table_insert (ledger : Ledger) (code : ShortCode) (url owner : String) :
    ledger.table.insert code url owner =
      if ledger.records.any (·.url == url) then .ok (false, ledger.table)
      else if ledger.records.any (·.code == code) then .error .codeTaken
      else .ok (true, (ledger.extend code url owner).table) := by
  unfold LinkTable.insert
  rw [table_any_url, table_any_code]
  simp only [table, List.contains_nil, Bool.false_eq_true, if_false]
  split
  · rfl
  · split
    · rfl
    · simp [extend, Row.live, Row.ofRecord]

theorem database_put (ledger : Ledger) (code : ShortCode) (url owner : String) :
    ledger.database.put code url owner =
      ((ledger.put code url owner).1, (ledger.put code url owner).2.database) := by
  unfold Database.put Database.attempt
  simp only [database_table, table_insert, put, refusal?]
  by_cases urlTaken : ledger.records.any (·.url == url) = true
  · simp only [urlTaken, if_true]
  · by_cases codeTaken : ledger.records.any (·.code == code) = true
    · have free : ledger.findUrl url = none := by
        rw [findUrl, Option.map_eq_none_iff, ← Option.not_isSome_iff_eq_none, List.isSome_find?]
        exact urlTaken
      simp only [urlTaken, codeTaken, if_true, if_false, Database.resolveViolation,
        database_findUrl, free, Bool.false_eq_true]
    · simp only [urlTaken, codeTaken, if_false, Bool.false_eq_true]
      rfl

theorem table_insertAll (owner : String) (entries : List BatchEntry) (ledger : Ledger) :
    Database.insertAll owner entries ledger.table =
      (putLeading owner entries ledger).1.map
        fun _ => (putLeading owner entries ledger).2.table := by
  induction entries generalizing ledger with
  | nil => rfl
  | cons entry entries ih =>
    simp only [Database.insertAll, putLeading, table_insert, put, refusal?]
    by_cases urlTaken : ledger.records.any (·.url == entry.url) = true
    · simp only [urlTaken, if_true]
      rfl
    · by_cases codeTaken : ledger.records.any (·.code == entry.code) = true
      · simp only [urlTaken, codeTaken, if_true, if_false, Bool.false_eq_true]
        rfl
      · simp only [urlTaken, codeTaken, if_false, Bool.false_eq_true]
        exact ih (ledger.extend entry.code entry.url owner)

theorem database_putTogether (ledger : Ledger) (entries : List BatchEntry) (owner : String) :
    ledger.database.putTogether entries owner =
      ((putTogether owner entries ledger).1, (putTogether owner entries ledger).2.database) := by
  cases entries with
  | nil => rfl
  | cons entry entries =>
    have inserted := table_insertAll owner (entry :: entries) ledger
    simp only [Database.putTogether, database, Bool.not_true, Bool.false_eq_true, if_false,
      inserted, putTogether]
    cases putLeading owner (entry :: entries) ledger with
    | mk answer next =>
      cases answer with
      | error error => rfl
      | ok done => rfl

theorem row_buried (code : ShortCode) (owner : String) (record : LinkRecord) :
    (if (Row.ofRecord record).hasCode code && (Row.ofRecord record).hasOwner owner then
        { Row.ofRecord record with deleted := .integer 1 }
      else Row.ofRecord record) = Row.ofRecord (buried [code] owner record) := by
  rw [Row.hasCode_ofRecord, Row.hasOwner_ofRecord]
  by_cases same : record.code = code <;> by_cases owned : record.owner = owner <;>
    simp [buried, Row.ofRecord, same, owned]

theorem table_bury (ledger : Ledger) (code : ShortCode) (owner : String) :
    ledger.table.bury code owner = .ok (ledger.markDeleted [code] owner).table := by
  simp only [LinkTable.bury, table, List.contains_nil, Bool.and_false, Bool.false_eq_true,
    if_false, List.map_map, markDeleted_records, Function.comp_def, row_buried]

theorem table_buryAll (owner : String) (codes : List ShortCode) (ledger : Ledger) :
    Database.buryAll owner codes (some ledger.table) =
      (some (ledger.markDeleted codes owner).table, []) := by
  induction codes generalizing ledger with
  | nil => rw [markDeleted_nil, Database.buryAll]
  | cons code codes ih =>
    rw [markDeleted_cons]
    simp only [Database.buryAll, table_bury, ih, List.append_nil]

theorem database_markDeleted (ledger : Ledger) (codes : List ShortCode) (owner : String) :
    ledger.database.markDeleted codes owner =
      (.ok (), (ledger.markDeleted codes owner).database, []) := by
  simp only [Database.markDeleted, database, Bool.not_true, Bool.false_eq_true, if_false,
    table_buryAll]

end Ledger

end ShortLinks
