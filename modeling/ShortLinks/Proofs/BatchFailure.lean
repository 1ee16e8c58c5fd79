import ShortLinks.Proofs.History
import ShortLinks.Proofs.StoredKeys

/-!
# Batches that fail

Where the entries of a batch are inserted one after the other, one of them may be the first that
fails: its URL or its code is taken, perhaps by an entry before it, or the insert fails below the
store. The batch fails with the error of that entry. Memory and journal keep the entries before
it, the database keeps none.
-/

namespace ShortLinks

set_option autoImplicit false

/-- An entry whose insert may fail in a database for a reason of its own. -/
structure Trial where
  entry : BatchEntry
  fault : Option StorageError

def Trial.plain (entry : BatchEntry) : Trial := ⟨entry, none⟩

namespace Database

/-- Inserts entry by entry inside a transaction, up to the first that fails. A fault comes before
any conflict. -/
def insertTried (owner : String) : List Trial → LinkTable → Except StorageError LinkTable
  | [], table => .ok table
  | trial :: trials, table =>
      match trial.fault with
      | some error => .error error
      | none =>
          match insertAll owner [trial.entry] table with
          | .error error => .error error
          | .ok next => insertTried owner trials next

def putTried (database : Database) (table : LinkTable) (trials : List Trial) (owner : String) :
    Except StorageError Unit × Database :=
  match insertTried owner trials table with
  | .error error => (.error error, database)
  | .ok next => (.ok (), database.withTable next)

variable {database : Database} {table : LinkTable}

theorem insertAll_cons (owner : String) (entry : BatchEntry) (entries : List BatchEntry)
    (table : LinkTable) :
    insertAll owner (entry :: entries) table =
      match insertAll owner [entry] table with
      | .error error => .error error
      | .ok next => insertAll owner entries next := by
  simp only [insertAll]
  split <;> rfl

theorem insertTried_plain (owner : String) (entries : List BatchEntry) (table : LinkTable) :
    insertTried owner (entries.map Trial.plain) table = insertAll owner entries table := by
  induction entries generalizing table with
  | nil => rfl
  | cons entry entries ih =>
    rw [insertAll_cons]
    simp only [List.map_cons, insertTried, Trial.plain, ih]

theorem withTable_same (held : database.file.table = some table) :
    database.withTable table = database := by
  rw [withTable, ← held]

/-- Without faults it is the batch that the database knows. -/
theorem putTried_plain (held : database.table = .ok table) (entries : List BatchEntry)
    (owner : String) :
    database.putTried table (entries.map Trial.plain) owner =
      database.putTogether entries owner := by
  rcases table_ok_iff.1 held with ⟨connected, same⟩
  rw [putTried, insertTried_plain]
  cases entries with
  | nil => simp [insertAll, putTogether, connected, withTable_same same]
  | cons entry entries =>
    cases inserted : insertAll owner (entry :: entries) table <;>
      simp [putTogether, connected, same, inserted]

end Database

namespace Backend

def tryPut (disk : Disk) (owner : String) (backend : Backend) (trial : Trial) :
    Except StorageError Unit × Backend :=
  match trial.fault with
  | some error => (.error error, backend)
  | none =>
      let answered := backend.perform disk (.put trial.entry.code trial.entry.url owner)
      (answered.answer, answered.backend)

/-- Puts the entries one after the other, up to the first that fails. -/
def tryAll (disk : Disk) (owner : String) : List Trial → Backend →
    Except StorageError Unit × Backend
  | [], backend => (.ok (), backend)
  | trial :: trials, backend =>
      match tryPut disk owner backend trial with
      | (.error error, same) => (.error error, same)
      | (.ok _, next) => tryAll disk owner trials next

/-- All the entries can be put, one after the other, and lead from one backend to another. -/
inductive PutAll (disk : Disk) (owner : String) : Backend → List Trial → Backend → Prop
  | nil (backend : Backend) : PutAll disk owner backend [] backend
  | cons {backend next last : Backend} {trial : Trial} {trials : List Trial}
      (first : tryPut disk owner backend trial = (.ok (), next))
      (later : PutAll disk owner next trials last) :
      PutAll disk owner backend (trial :: trials) last

variable {disk : Disk} {owner : String} {backend : Backend}

theorem put_failed {code : ShortCode} {url : String} {error : StorageError}
    (failed : (backend.perform disk (.put code url owner)).answer = .error error) :
    (backend.perform disk (.put code url owner)).backend = backend := by
  have shown := put_shows disk backend code url owner
  rw [failed] at shown
  generalize (backend.perform disk (.put code url owner)).backend = after at shown ⊢
  cases shown <;> rfl

theorem try_put_failed {trial : Trial} {error : StorageError} {after : Backend}
    (failed : tryPut disk owner backend trial = (.error error, after)) : after = backend := by
  unfold tryPut at failed
  split at failed
  · cases failed
    rfl
  · rcases Prod.mk.inj failed with ⟨answer, rfl⟩
    exact put_failed answer

/-- All entries are put, or one of them is the first that fails. -/
theorem try_all_cases (disk : Disk) (owner : String) (trials : List Trial) (backend : Backend) :
    (∃ last, PutAll disk owner backend trials last ∧
        tryAll disk owner trials backend = (.ok (), last)) ∨
      ∃ front trial later between error, trials = front ++ trial :: later ∧
        PutAll disk owner backend front between ∧
        tryPut disk owner between trial = (.error error, between) ∧
        tryAll disk owner trials backend = (.error error, between) := by
  induction trials generalizing backend with
  | nil => exact .inl ⟨backend, .nil backend, rfl⟩
  | cons trial trials ih =>
    cases put : tryPut disk owner backend trial with
    | mk answer next =>
      cases answer with
      | error error =>
        obtain rfl : next = backend := try_put_failed put
        exact .inr ⟨[], trial, trials, next, error, rfl, .nil next, put, by rw [tryAll, put]⟩
      | ok done =>
        have step : tryAll disk owner (trial :: trials) backend =
            tryAll disk owner trials next := by
          rw [tryAll, put]
        rw [step]
        rcases ih next with ⟨last, all, ran⟩ | ⟨front, failing, later, between, error, rfl, before,
          fails, ran⟩
        · exact .inl ⟨last, .cons put all, ran⟩
        · exact .inr ⟨trial :: front, failing, later, between, error, rfl, .cons put before,
            fails, ran⟩

end Backend

namespace Ledger

/-- The ledger with live records of an owner more, whatever it holds. -/
def withEntries (ledger : Ledger) (owner : String) (entries : List BatchEntry) : Ledger :=
  ⟨ledger.records ++ entries.map fun entry => ⟨entry.code, entry.url, owner, false⟩⟩

theorem with_entries_nil (ledger : Ledger) (owner : String) :
    ledger.withEntries owner [] = ledger := by
  simp [withEntries]

theorem with_entries_cons (ledger : Ledger) (owner : String) (entry : BatchEntry)
    (entries : List BatchEntry) :
    ledger.withEntries owner (entry :: entries) =
      (ledger.extend entry.code entry.url owner).withEntries owner entries := by
  simp [withEntries, extend]

end Ledger

namespace Backend

/-- The backend with live records more, in the order of the entries, and a line of the log for
each. -/
def withEntries (backend : Backend) (ledger : Ledger) (owner : String)
    (entries : List BatchEntry) : Backend :=
  match backend with
  | .memory _ => .memory (ledger.withEntries owner entries).index
  | .journal path held =>
      .journal path ⟨held.log ++ entries.flatMap fun entry =>
        (JournalLine.live entry.code entry.url owner).bytes,
        (ledger.withEntries owner entries).index⟩
  | .database held =>
      .database { held with file := { held.file with
        table := held.file.table.map fun table =>
          { table with rows := (ledger.withEntries owner entries).table.rows } } }

variable {disk : Disk} {owner : String} {backend next : Backend} {ledger : Ledger}

theorem with_entries_nil (stores : backend.Stores ledger) :
    backend.withEntries ledger owner [] = backend := by
  cases backend with
  | memory index =>
    obtain rfl : index = ledger.index := stores
    rw [withEntries, Ledger.with_entries_nil]
  | journal path held =>
    have indexed : held.index = ledger.index := stores
    simp [withEntries, Ledger.with_entries_nil, ← indexed]
  | database held =>
    rcases stores with ⟨inserts, updates, connected, rfl⟩
    simp [withEntries, Ledger.with_entries_nil, Ledger.databaseUnder, Ledger.tableUnder]

theorem journal_put_stored {held after : Journal} (indexed : held.index = ledger.index)
    {code : ShortCode} {url : String} (put : held.put disk code url owner = (.ok (), after)) :
    after = ⟨held.log ++ (JournalLine.live code url owner).bytes,
      (ledger.extend code url owner).index⟩ := by
  unfold Journal.put at put
  cases refused : held.index.refusal? code url with
  | some error =>
    rw [refused] at put
    cases put
  | none =>
    rw [refused] at put
    cases Journal.append_cases disk held (.live code url owner) with
    | inl failed =>
      rcases failed with ⟨cause, broken⟩
      rw [broken] at put
      cases put
    | inr written =>
      rw [written] at put
      cases put
      rw [indexed, Ledger.index_refusal] at refused
      rw [indexed, Ledger.index_store refused]

theorem database_put_stored {inserts updates : List ShortCode} {connected : Bool}
    {after : Database} {code : ShortCode} {url : String}
    (put : (ledger.databaseUnder inserts updates connected).put code url owner =
      (.ok (), after)) :
    after = (ledger.extend code url owner).databaseUnder inserts updates connected := by
  cases connected with
  | false => cases put
  | true =>
    have held : (ledger.databaseUnder inserts updates true).table =
        .ok (ledger.tableUnder inserts updates) := rfl
    rw [Database.put_as_batch held] at put
    simp only [Database.insertAll] at put
    rcases Ledger.insert_under inserts updates ledger code url owner with
      ⟨error, failed⟩ | taken | ⟨_, added⟩
    · rw [failed] at put
      cases error <;> cases put
    · rw [taken] at put
      cases put
    · rw [added] at put
      cases put
      rfl

theorem try_put_stored (stores : backend.Stores ledger) {trial : Trial}
    (put : tryPut disk owner backend trial = (.ok (), next)) :
    next.Stores (ledger.extend trial.entry.code trial.entry.url owner) ∧
      ∀ entries, next.withEntries (ledger.extend trial.entry.code trial.entry.url owner) owner
        entries = backend.withEntries ledger owner (trial.entry :: entries) := by
  unfold tryPut at put
  split at put
  · cases put
  · rcases Prod.mk.inj put with ⟨answer, rfl⟩
    cases backend with
    | memory index =>
      obtain rfl : index = ledger.index := stores
      simp only [perform, performMemory, Ledger.index_insert] at answer ⊢
      rcases Ledger.put_cases ledger trial.entry.code trial.entry.url owner with
        ⟨error, refused, _⟩ | ⟨_, stored⟩
      · rw [refused] at answer
        cases answer
      · rw [stored]
        refine ⟨rfl, fun entries => ?_⟩
        rw [withEntries, withEntries, Ledger.with_entries_cons]
    | journal path held =>
      have written := journal_put_stored stores (Prod.ext answer rfl)
      simp only [perform, performJournal, written]
      refine ⟨rfl, fun entries => ?_⟩
      simp [withEntries, Ledger.with_entries_cons]
    | database held =>
      rcases stores with ⟨inserts, updates, connected, rfl⟩
      have added := database_put_stored (Prod.ext answer rfl)
      simp only [perform, performDatabase, added]
      refine ⟨⟨inserts, updates, connected, rfl⟩, fun entries => ?_⟩
      simp [withEntries, Ledger.with_entries_cons, Ledger.databaseUnder, Ledger.tableUnder]

theorem put_all_stored (stores : backend.Stores ledger) {trials : List Trial}
    (all : PutAll disk owner backend trials next) :
    next.Stores (ledger.withEntries owner (trials.map Trial.entry)) ∧
      next = backend.withEntries ledger owner (trials.map Trial.entry) := by
  induction all generalizing ledger with
  | nil backend =>
    rw [List.map_nil, Ledger.with_entries_nil, with_entries_nil stores]
    exact ⟨stores, rfl⟩
  | cons first later ih =>
    rcases try_put_stored stores first with ⟨held, same⟩
    rcases ih held with ⟨stored, reached⟩
    rw [List.map_cons, Ledger.with_entries_cons, ← same]
    exact ⟨stored, reached⟩

theorem try_all_memory (disk : Disk) (owner : String) (entries : List BatchEntry)
    (index : Index) :
    tryAll disk owner (entries.map Trial.plain) (.memory index) =
      ((index.insertLeading owner entries).1, .memory (index.insertLeading owner entries).2) := by
  induction entries generalizing index with
  | nil => rfl
  | cons entry entries ih =>
    simp only [List.map_cons, tryAll, tryPut, Trial.plain, perform, performMemory,
      Index.insertLeading]
    cases index.insert entry.code entry.url owner with
    | mk answer next =>
      cases answer with
      | error error => rfl
      | ok done => exact ih next

theorem try_all_journal (disk : Disk) (owner path : String) (entries : List BatchEntry)
    (held : Journal) :
    tryAll disk owner (entries.map Trial.plain) (.journal path held) =
      ((held.putLeading disk owner entries).1,
        .journal path (held.putLeading disk owner entries).2) := by
  induction entries generalizing held with
  | nil => rfl
  | cons entry entries ih =>
    simp only [List.map_cons, tryAll, tryPut, Trial.plain, perform, performJournal,
      Journal.putLeading]
    cases held.put disk entry.code entry.url owner with
    | mk answer next =>
      cases answer with
      | error error => rfl
      | ok done => exact ih next

theorem try_put_database {held : Database} {table : LinkTable} (read : held.table = .ok table)
    (disk : Disk) (owner : String) (entry : BatchEntry) :
    tryPut disk owner (.database held) (.plain entry) =
      match Database.insertAll owner [entry] table with
      | .error error => (.error error, .database held)
      | .ok next => (.ok (), .database (held.withTable next)) := by
  simp only [tryPut, Trial.plain, perform, performDatabase, Database.put_as_batch read]
  cases Database.insertAll owner [entry] table <;> rfl

/-- A transaction comes to where the entries come, and is undone if one of them fails. -/
theorem put_tried_all {held : Database} {table : LinkTable} (read : held.table = .ok table)
    (disk : Disk) (owner : String) (trials : List Trial) :
    ((held.putTried table trials owner).1, database (held.putTried table trials owner).2) =
      match tryAll disk owner trials (.database held) with
      | (.ok done, last) => (.ok done, last)
      | (.error error, _) => (.error error, .database held) := by
  induction trials generalizing held table with
  | nil =>
    have same := Database.withTable_same (Database.table_ok_iff.1 read).2
    simp only [Database.putTried, Database.insertTried, same, tryAll]
  | cons trial trials ih =>
    rcases trial with ⟨entry, fault⟩
    cases fault with
    | some error => rfl
    | none =>
      have first := try_put_database read disk owner entry
      rw [Trial.plain] at first
      simp only [tryAll, first, Database.putTried, Database.insertTried]
      cases Database.insertAll owner [entry] table with
      | error error => rfl
      | ok next =>
        have further : (held.withTable next).table = .ok next :=
          Database.table_ok_iff.2 ⟨(Database.table_ok_iff.1 read).1, rfl⟩
        have later := ih further
        simp only [Database.putTried] at later ⊢
        cases ran : tryAll disk owner trials (.database (held.withTable next)) with
        | mk answer last =>
          rw [ran] at later
          cases inserted : Database.insertTried owner trials next with
          | error error =>
            rw [inserted] at later
            cases answer with
            | error cause =>
              cases later
              rfl
            | ok done => cases later
          | ok table =>
            rw [inserted] at later
            cases answer with
            | error cause => cases later
            | ok done =>
              cases later
              rfl

/-- What the policy leaves of a batch that had come to a backend when it failed. -/
def leaves (backend between : Backend) : Backend :=
  match backend.batchPolicy with
  | .keepLeading => between
  | .allOrNothing => backend

/-- How a batch ends: all entries are stored in order, or the first that fails where they are put
one after the other gives the error, and only the entries before it may be left. -/
inductive BatchEnds (disk : Disk) (owner : String) (backend : Backend) (ledger : Ledger) :
    List Trial → Except StorageError Unit → Backend → Prop
  | stored {trials : List Trial} {last : Backend} (all : PutAll disk owner backend trials last)
      (holds : last = backend.withEntries ledger owner (trials.map Trial.entry)) :
      BatchEnds disk owner backend ledger trials (.ok ()) last
  | failed {front later : List Trial} {trial : Trial} {between : Backend} {error : StorageError}
      (before : PutAll disk owner backend front between)
      (holds : between = backend.withEntries ledger owner (front.map Trial.entry))
      (fails : tryPut disk owner between trial = (.error error, between)) :
      BatchEnds disk owner backend ledger (front ++ trial :: later) (.error error)
        (backend.leaves between)

theorem batch_ends (stores : backend.Stores ledger) (disk : Disk) (owner : String)
    (trials : List Trial) :
    BatchEnds disk owner backend ledger trials (tryAll disk owner trials backend).1
      (match tryAll disk owner trials backend with
        | (.ok _, last) => last
        | (.error _, between) => backend.leaves between) := by
  rcases try_all_cases disk owner trials backend with
    ⟨last, all, ran⟩ | ⟨front, trial, later, between, error, rfl, before, fails, ran⟩
  · rw [ran]
    exact .stored all (put_all_stored stores all).2
  · rw [ran]
    exact .failed before (put_all_stored stores before).2 fails

def Open (backend : Backend) : Prop :=
  match backend with
  | .memory _ | .journal _ _ => True
  | .database held => held.connected = true

/-- How batches of an owner end, in a database also where inserts fail that were chosen before. -/
structure EndsBatches (backend : Backend) (ledger : Ledger) (owner : String) : Prop where
  batches : backend.Open → ∀ disk entries,
    BatchEnds disk owner backend ledger (entries.map Trial.plain)
      (backend.perform disk (.putBatch entries owner)).answer
      (backend.perform disk (.putBatch entries owner)).backend
  tried : ∀ held table, backend = .database held → held.table = .ok table → ∀ disk trials,
    BatchEnds disk owner backend ledger trials (held.putTried table trials owner).1
      (.database (held.putTried table trials owner).2)
  plain : ∀ held table, backend = .database held → held.table = .ok table → ∀ entries,
    held.putTried table (entries.map Trial.plain) owner = held.putTogether entries owner
  closed : ¬ backend.Open → ∀ disk entries,
    backend.perform disk (.putBatch entries owner) = ⟨.error Database.closedError, backend, []⟩

theorem tried_ends {held : Database} (stores : (database held).Stores ledger)
    {table : LinkTable} (read : held.table = .ok table) (disk : Disk) (owner : String)
    (trials : List Trial) :
    BatchEnds disk owner (.database held) ledger trials (held.putTried table trials owner).1
      (.database (held.putTried table trials owner).2) := by
  have ends := batch_ends stores disk owner trials
  have same := put_tried_all read disk owner trials
  cases ran : tryAll disk owner trials (.database held) with
  | mk answer last =>
    rw [ran] at ends same
    cases answer with
    | error error =>
      rcases Prod.mk.inj same with ⟨failed, undone⟩
      rw [failed, undone]
      exact ends
    | ok done =>
      rcases Prod.mk.inj same with ⟨succeeded, reached⟩
      rw [succeeded, reached]
      exact ends

theorem leading_ends (stores : backend.Stores ledger) (policy : backend.batchPolicy = .keepLeading)
    (disk : Disk) (owner : String) (trials : List Trial) :
    BatchEnds disk owner backend ledger trials (tryAll disk owner trials backend).1
      (tryAll disk owner trials backend).2 := by
  have ends := batch_ends stores disk owner trials
  cases ran : tryAll disk owner trials backend with
  | mk answer last =>
    rw [ran] at ends
    cases answer with
    | error error => simpa only [leaves, policy] using ends
    | ok done => exact ends

theorem ends_batches (stores : backend.Stores ledger) (owner : String) :
    backend.EndsBatches ledger owner := by
  refine ⟨?_, ?_, ?_, ?_⟩
  · intro opened disk entries
    cases backend with
    | memory index =>
      have ends := leading_ends stores rfl disk owner (entries.map Trial.plain)
      rw [try_all_memory] at ends
      exact ends
    | journal path held =>
      have ends := leading_ends stores rfl disk owner (entries.map Trial.plain)
      rw [try_all_journal] at ends
      exact ends
    | database held =>
      rcases stores with ⟨inserts, updates, connected, rfl⟩
      obtain rfl : connected = true := opened
      have read : (ledger.databaseUnder inserts updates true).table =
          .ok (ledger.tableUnder inserts updates) := rfl
      have ends := tried_ends ⟨inserts, updates, true, rfl⟩ read disk owner
        (entries.map Trial.plain)
      rw [Database.putTried_plain read] at ends
      exact ends
  · rintro held table rfl read disk trials
    exact tried_ends stores read disk owner trials
  · rintro held table rfl read entries
    exact Database.putTried_plain read entries owner
  · intro closed disk entries
    cases backend with
    | memory index => exact absurd trivial closed
    | journal path held => exact absurd trivial closed
    | database held =>
      have shut : held.connected = false := by simpa [Open] using closed
      simp only [perform, performDatabase, Database.putTogether, shut, Bool.not_false, if_true]

/-- Whatever a store has been through, a batch fails with the error of the first entry that fails,
and keeps the entries before it or none. -/
theorem batches_end_at_first_failure {settings : DeletionSettings} {first : Backend}
    (initial : first.Initial) {deeds : List Deed} {desk : Desk} {made : List Ask}
    (reached : Desk.deeds? deeds ⟨.start settings, first⟩ = some (desk, made))
    (owner : String) :
    ∃ ledger, desk.backend.Genuine ledger ∧ desk.backend.EndsBatches ledger owner := by
  rcases genuine_initial initial with ⟨origin, began⟩
  rcases Desk.genuine_deeds began reached with ⟨ledger, _, genuine⟩
  exact ⟨ledger, genuine, ends_batches genuine.stores owner⟩

/-- The second insert fails below the store, so the clash of the third is not looked at. -/
def luckless : List Trial :=
  [.plain ⟨⟨"b"⟩, "http://b"⟩, ⟨⟨⟨"c"⟩, "http://c"⟩, some (.query "disk I/O error")⟩,
    .plain ⟨⟨"a"⟩, "http://d"⟩]

theorem luckless_batch_is_undone :
    ∃ desk made held table ledger,
      Desk.deeds? [.call .roomy ⟨.put ⟨"a"⟩ "http://a" "u1"⟩]
        ⟨.start ⟨1, 1⟩, .database Ledger.empty.database⟩ = some (desk, made) ∧
      desk.backend = .database held ∧ held.table = .ok table ∧
      BatchEnds .roomy "u2" desk.backend ledger luckless (.error (.query "disk I/O error"))
        desk.backend := by
  have initial : (Backend.database Ledger.empty.database).Initial := rfl
  obtain ⟨desk, made, held, table, reached, same, read, failed⟩ : ∃ desk made held table,
      Desk.deeds? [.call .roomy ⟨.put ⟨"a"⟩ "http://a" "u1"⟩]
        ⟨.start ⟨1, 1⟩, .database Ledger.empty.database⟩ = some (desk, made) ∧
      desk.backend = .database held ∧ held.table = .ok table ∧
      held.putTried table luckless "u2" = (.error (.query "disk I/O error"), held) :=
    ⟨_, _, _, _, rfl, rfl, rfl, rfl⟩
  rcases batches_end_at_first_failure initial reached "u2" with ⟨ledger, _, ends⟩
  have tried := ends.tried held table same read .roomy luckless
  rw [failed, ← same] at tried
  exact ⟨desk, made, held, table, ledger, reached, same, read, tried⟩

end Backend

end ShortLinks
