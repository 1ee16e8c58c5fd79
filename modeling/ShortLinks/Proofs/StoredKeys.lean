import ShortLinks.Proofs.JournalReplay
import ShortLinks.Proofs.OneStore

/-!
# Keys that are stored

A URL or a code that is stored stays stored, in any store that there can be: no call takes one
away, and the rows of a table keep theirs in their places. So a put is refused once its URL or its
code is there, and an insert that found its code taken would find it taken ever after.
-/

namespace ShortLinks

set_option autoImplicit false

namespace Keyed

variable {κ ν : Type} [DecidableEq κ] {table : Keyed κ ν} {key wanted : κ}

theorem contains_insert (value : ν) :
    (table.insert key value).contains wanted =
      (decide (wanted = key) || table.contains wanted) := by
  rw [contains, find_insert]
  by_cases same : wanted = key <;> simp [same, contains]

theorem contains_modify (change : ν → ν) :
    (table.modify key change).contains wanted = table.contains wanted := by
  rw [contains, find_modify]
  by_cases same : wanted = key <;> simp [same, contains]

end Keyed

namespace Index

/-- The later index knows the URLs and the codes of the earlier one. -/
structure Within (before after : Index) : Prop where
  urls : ∀ url, before.byUrl.contains url = true → after.byUrl.contains url = true
  codes : ∀ code, before.byCode.contains code = true → after.byCode.contains code = true

variable {index : Index}

theorem within_refl (index : Index) : index.Within index :=
  ⟨fun _ known => known, fun _ known => known⟩

theorem within_trans {first second third : Index} (one : first.Within second)
    (other : second.Within third) : first.Within third :=
  ⟨fun url known => other.urls url (one.urls url known),
    fun code known => other.codes code (one.codes code known)⟩

theorem within_store (index : Index) (code : ShortCode) (url owner : String) :
    index.Within (index.store code url owner) := by
  constructor
  · intro other known
    simp [store, Keyed.contains_insert, known]
  · intro other known
    simp [store, Keyed.contains_insert, known]

theorem within_bury (index : Index) (code : ShortCode) (owner : String) :
    index.Within (index.bury code owner) := by
  unfold bury
  split
  · refine ⟨fun _ known => known, fun other known => ?_⟩
    simp only [Keyed.contains_modify]
    exact known
  · exact within_refl index

theorem within_insert (index : Index) (code : ShortCode) (url owner : String) :
    index.Within (index.insert code url owner).2 := by
  unfold insert
  cases index.refusal? code url with
  | some error => exact within_refl index
  | none => exact within_store index code url owner

end Index

namespace Replay

theorem within_apply (index : Index) (line : JournalLine) :
    index.Within (apply index line).outcome := by
  unfold apply
  split
  · exact index.within_bury line.code line.owner
  · have stays := index.within_insert line.code line.url line.owner
    cases inserted : index.insert line.code line.url line.owner with
    | mk answer next =>
      rw [inserted] at stays
      cases answer with
      | ok done => exact stays
      | error cause => cases cause <;> exact stays

theorem within_apply_all (index : Index) (read : List JournalLine) :
    index.Within (applyAll index read) := by
  induction read generalizing index with
  | nil => exact index.within_refl
  | cons line read ih => exact Index.within_trans (within_apply index line) (ih _)

end Replay

def Row.keys (row : Row) : Cell × Cell := (row.code, row.url)

def BatchEntry.keys (entry : BatchEntry) : Cell × Cell :=
  (.ofText entry.code.text, .ofText entry.url)

namespace LinkTable

variable {table next : LinkTable} {code : ShortCode} {url owner : String}

/-- The later table has the keys of the earlier one in front, and behind them those of entries. -/
structure Within (before after : LinkTable) : Prop where
  blocked : after.blockedInserts = before.blockedInserts
  keys : ∃ added : List BatchEntry,
    after.rows.map Row.keys = before.rows.map Row.keys ++ added.map BatchEntry.keys

theorem within_refl (table : LinkTable) : table.Within table := ⟨rfl, [], by simp⟩

theorem within_trans {first second third : LinkTable} (one : first.Within second)
    (other : second.Within third) : first.Within third := by
  rcases one with ⟨blocked, added, keys⟩
  rcases other with ⟨blockedLater, later, keysLater⟩
  exact ⟨blockedLater.trans blocked, added ++ later, by simp [keysLater, keys]⟩

theorem within_insert {added : Bool} (inserted : table.insert code url owner = .ok (added, next)) :
    table.Within next := by
  unfold insert at inserted
  split at inserted
  · cases inserted
  · split at inserted
    · cases inserted
      exact within_refl table
    · split at inserted
      · cases inserted
      · cases inserted
        exact ⟨rfl, [⟨code, url⟩], by simp [Row.keys, Row.live, BatchEntry.keys]⟩

theorem within_bury (buried : table.bury code owner = .ok next) : table.Within next := by
  unfold bury at buried
  simp only at buried
  split at buried
  · cases buried
  · cases buried
    refine ⟨rfl, [], ?_⟩
    rw [List.map_map, List.map_nil, List.append_nil]
    apply List.map_congr_left
    intro row _
    rw [Function.comp_apply]
    split <;> rfl

theorem within_insertAll {entries : List BatchEntry}
    (inserted : Database.insertAll owner entries table = .ok next) : table.Within next := by
  induction entries generalizing table with
  | nil =>
    cases inserted
    exact within_refl _
  | cons entry entries ih =>
    unfold Database.insertAll at inserted
    split at inserted
    · rename_i first
      exact within_trans (within_insert first) (ih inserted)
    · cases inserted
    · cases inserted
    · cases inserted

theorem within_buryAll (owner : String) (codes : List ShortCode) (table : LinkTable) :
    ∃ next, (Database.buryAll owner codes (some table)).1 = some next ∧ table.Within next := by
  induction codes generalizing table with
  | nil => exact ⟨table, rfl, within_refl table⟩
  | cons code codes ih =>
    cases buried : table.bury code owner with
    | error error =>
      rcases ih table with ⟨next, reached, within⟩
      refine ⟨next, ?_, within⟩
      simp only [Database.buryAll, buried, reached]
    | ok changed =>
      rcases ih changed with ⟨next, reached, within⟩
      refine ⟨next, ?_, within_trans (within_bury buried) within⟩
      simp only [Database.buryAll, buried, reached]

/-- Inserts of the code fail, whether for the URL or for the code. If there is a row with the URL
its code can be read. -/
structure Taken (table : LinkTable) (code : ShortCode) (url : String) : Prop where
  unblocked : table.blockedInserts.contains code = false
  code : table.rows.any (·.hasCode code) = true
  readable : ∀ row ∈ table.rows, row.hasUrl url = true → ∃ text, row.code.asText = .ok text

theorem any_code_iff : table.rows.any (·.hasCode code) = true ↔
    ∃ keys ∈ table.rows.map Row.keys, keys.1 = .ofText code.text := by
  simp [Row.hasCode, Row.keys]

theorem any_url_iff : table.rows.any (·.hasUrl url) = true ↔
    ∃ keys ∈ table.rows.map Row.keys, keys.2 = .ofText url := by
  simp [Row.hasUrl, Row.keys]

theorem any_code_within (within : table.Within next)
    (held : table.rows.any (·.hasCode code) = true) :
    next.rows.any (·.hasCode code) = true := by
  rcases within.keys with ⟨added, keys⟩
  rcases any_code_iff.1 held with ⟨pair, listed, same⟩
  rw [any_code_iff, keys]
  exact ⟨pair, List.mem_append_left _ listed, same⟩

theorem any_url_within (within : table.Within next)
    (held : table.rows.any (·.hasUrl url) = true) :
    next.rows.any (·.hasUrl url) = true := by
  rcases within.keys with ⟨added, keys⟩
  rcases any_url_iff.1 held with ⟨pair, listed, same⟩
  rw [any_url_iff, keys]
  exact ⟨pair, List.mem_append_left _ listed, same⟩

theorem taken_within (taken : table.Taken code url) (within : table.Within next) :
    next.Taken code url := by
  refine ⟨within.blocked ▸ taken.unblocked, any_code_within within taken.code, ?_⟩
  intro row held named
  rcases within.keys with ⟨added, keys⟩
  have listed : row.keys ∈ table.rows.map Row.keys ++ added.map BatchEntry.keys :=
    keys ▸ List.mem_map_of_mem held
  rcases List.mem_append.1 listed with old | new
  · rcases List.mem_map.1 old with ⟨before, known, same⟩
    rcases Prod.mk.inj same with ⟨code, url⟩
    rw [← code]
    exact taken.readable before known (by rw [Row.hasUrl, url]; exact named)
  · rcases List.mem_map.1 new with ⟨entry, _, same⟩
    rcases Prod.mk.inj same with ⟨code, _⟩
    rw [← code]
    exact ⟨_, Cell.asText_ofText entry.code.text⟩

theorem taken_of_violation (violated : table.insert code url owner = .error .codeTaken) :
    table.Taken code url := by
  unfold insert at violated
  split at violated
  · cases violated
  · rename_i unblocked
    split at violated
    · cases violated
    · rename_i free
      split at violated
      · rename_i code
        refine ⟨by simpa using unblocked, code, ?_⟩
        intro row held named
        exact absurd (List.any_eq_true.2 ⟨row, held, named⟩) free
      · cases violated

end LinkTable

namespace Database

variable {database next : Database} {table : LinkTable} {code : ShortCode} {url owner : String}

theorem table_ok_iff : database.table = .ok table ↔
    database.connected = true ∧ database.file.table = some table := by
  unfold Database.table
  cases database.connected <;> cases database.file.table <;> simp

def Within (before after : Database) : Prop :=
  ∀ table, before.file.table = some table →
    ∃ later, after.file.table = some later ∧ table.Within later

theorem within_refl (database : Database) : database.Within database :=
  fun table held => ⟨table, held, table.within_refl⟩

theorem within_table {later : LinkTable} (held : database.file.table = some table)
    (within : table.Within later) : database.Within (database.withTable later) := by
  intro other same
  obtain rfl : table = other := Option.some.inj (held.symm.trans same)
  exact ⟨later, rfl, within⟩

theorem within_attempt (database : Database) (code : ShortCode) (url owner : String) :
    database.Within (database.attempt code url owner).2 := by
  unfold attempt
  split
  · exact database.within_refl
  · rename_i table found
    split
    · rename_i inserted
      exact within_table (table_ok_iff.1 found).2 (LinkTable.within_insert inserted)
    · exact database.within_refl
    · exact database.within_refl
    · exact database.within_refl

theorem within_put (database : Database) (code : ShortCode) (url owner : String) :
    database.Within (database.put code url owner).2 := by
  have attempted := database.within_attempt code url owner
  unfold put
  split
  · rename_i reached
    rw [reached] at attempted
    exact attempted
  · rename_i reached
    rw [reached] at attempted
    exact attempted

theorem within_perform {α : Type} (database : Database) (call : StoreCall α) :
    database.Within (Backend.performDatabase database call).2.1 := by
  cases call with
  | put code url owner => exact database.within_put code url owner
  | putBatch entries owner =>
    simp only [Backend.performDatabase, putTogether]
    split
    · exact database.within_refl
    · split
      · exact database.within_refl
      · exact database.within_refl
      · rename_i found
        split
        · exact database.within_refl
        · rename_i inserted
          exact within_table found (LinkTable.within_insertAll inserted)
  | markDeleted codes owner =>
    simp only [Backend.performDatabase, markDeleted]
    split
    · exact database.within_refl
    · intro table held
      rw [held]
      exact LinkTable.within_buryAll owner codes table
  | get code => exact database.within_refl
  | findUrl url => exact database.within_refl
  | listByOwner owner => exact database.within_refl
  | stats => exact database.within_refl
  | probe deadline busy => exact database.within_refl
  | shutdown => exact database.within_refl

/-- The insert of the code has been found to violate the key, and so it would be found again
unless the URL is there. -/
def Taken (database : Database) (code : ShortCode) (url : String) : Prop :=
  ∃ table, database.file.table = some table ∧ table.Taken code url

theorem taken_within (taken : database.Taken code url) (within : database.Within next) :
    next.Taken code url := by
  rcases taken with ⟨table, held, clash⟩
  rcases within table held with ⟨later, found, kept⟩
  exact ⟨later, found, LinkTable.taken_within clash kept⟩

theorem taken_of_attempt (violated : database.attempt code url owner = (.violated, next)) :
    next = database ∧ database.Taken code url := by
  unfold attempt at violated
  split at violated
  · cases violated
  · rename_i found
    split at violated
    · cases violated
    · cases violated
    · rename_i inserted
      cases violated
      exact ⟨rfl, _, (table_ok_iff.1 found).2, LinkTable.taken_of_violation inserted⟩
    · cases violated

/-- A code is found taken only where the URL is free. -/
theorem url_free_of_code_taken {code : ShortCode} {url owner : String}
    (taken : table.insert code url owner = .error .codeTaken) :
    table.rows.find? (·.hasUrl url) = none := by
  unfold LinkTable.insert at taken
  split at taken
  · cases taken
  · split at taken
    · cases taken
    · rename_i free
      simpa using free

/-- A put is a batch of one entry: if its insert violates the key it looks for the URL once more,
and does not find it. -/
theorem put_as_batch (held : database.table = .ok table) (code : ShortCode)
    (url owner : String) :
    database.put code url owner =
      match insertAll owner [⟨code, url⟩] table with
      | .error error => (.error error, database)
      | .ok next => (.ok (), database.withTable next) := by
  simp only [put, attempt, held, insertAll]
  cases inserted : table.insert code url owner with
  | ok done =>
    rcases done with ⟨_ | _, next⟩ <;> rfl
  | error error =>
    cases error with
    | noTable => rfl
    | blocked => rfl
    | codeTaken =>
      have unknown : database.findUrl url = .ok none := by
        simp only [findUrl, held, Bind.bind, Except.bind, url_free_of_code_taken inserted]
        rfl
      simp only [resolveViolation, unknown]

theorem put_of_taken (taken : database.Taken code url) (owner : String) :
    database.put code url owner = (database.resolveViolation code url, database) := by
  rcases taken with ⟨table, held, clash⟩
  cases connected : database.connected with
  | false =>
    have shut : database.table = .error closedError := by simp [Database.table, connected]
    simp only [put, attempt, shut, resolveViolation, findUrl, Bind.bind, Except.bind]
  | true =>
    have found : database.table = .ok table := table_ok_iff.2 ⟨connected, held⟩
    have inserted : table.insert code url owner =
        if table.rows.any (·.hasUrl url) then .ok (false, table) else .error .codeTaken := by
      simp only [LinkTable.insert, clash.unblocked, clash.code, Bool.false_eq_true, if_false,
        if_true]
    cases known : table.rows.any (·.hasUrl url) with
    | true =>
      rw [known, if_pos rfl] at inserted
      have present : (table.rows.find? (·.hasUrl url)).isSome = true := by
        rw [List.isSome_find?, known]
      rcases Option.isSome_iff_exists.1 present with ⟨row, first⟩
      rcases clash.readable row (List.mem_of_find?_eq_some first)
        (by simpa using List.find?_some first) with ⟨text, read⟩
      have resolved : database.findUrl url = .ok (some ⟨text⟩) := by
        simp only [findUrl, found, Bind.bind, Except.bind, first, textColumn, read,
          Except.mapError]
        rfl
      simp only [put, attempt, found, inserted, resolveViolation, resolved]
    | false =>
      rw [known] at inserted
      simp only [Bool.false_eq_true, if_false] at inserted
      simp only [put, attempt, found, inserted]

end Database

namespace Backend

def hasUrl (backend : Backend) (url : String) : Bool :=
  match backend with
  | .memory index => index.byUrl.contains url
  | .journal _ held => held.index.byUrl.contains url
  | .database held => held.file.table.any fun table => table.rows.any (·.hasUrl url)

def hasCode (backend : Backend) (code : ShortCode) : Bool :=
  match backend with
  | .memory index => index.byCode.contains code
  | .journal _ held => held.index.byCode.contains code
  | .database held => held.file.table.any fun table => table.rows.any (·.hasCode code)

structure Within (before after : Backend) : Prop where
  urls : ∀ url, before.hasUrl url = true → after.hasUrl url = true
  codes : ∀ code, before.hasCode code = true → after.hasCode code = true

theorem within_refl (backend : Backend) : backend.Within backend :=
  ⟨fun _ known => known, fun _ known => known⟩

theorem within_trans {first second third : Backend} (one : first.Within second)
    (other : second.Within third) : first.Within third :=
  ⟨fun url known => other.urls url (one.urls url known),
    fun code known => other.codes code (one.codes code known)⟩

theorem within_database {before after : Database} (within : before.Within after) :
    (database before).Within (.database after) := by
  constructor
  · intro url known
    rcases (Option.any_eq_true _ _).1 known with ⟨table, held, listed⟩
    rcases within table held with ⟨later, found, rows⟩
    exact (Option.any_eq_true _ _).2 ⟨later, found, LinkTable.any_url_within rows listed⟩
  · intro code known
    rcases (Option.any_eq_true _ _).1 known with ⟨table, held, listed⟩
    rcases within table held with ⟨later, found, rows⟩
    exact (Option.any_eq_true _ _).2 ⟨later, found, LinkTable.any_code_within rows listed⟩

theorem within_journal {α : Type} (disk : Disk) (held : Journal) (call : StoreCall α) :
    held.index.Within (performJournal disk held call).2.index := by
  rcases Journal.grown_perform disk held call with ⟨written, _, index⟩
  rw [index]
  exact Replay.within_apply_all held.index written

theorem within_perform {α : Type} (disk : Disk) (backend : Backend) (call : StoreCall α) :
    backend.Within (backend.perform disk call).backend := by
  cases backend with
  | memory index =>
    have same := (journal_as_memory ⟨[], index⟩ call).2
    have stays := within_journal .roomy ⟨[], index⟩ call
    rw [same] at stays
    exact ⟨stays.urls, stays.codes⟩
  | journal path held =>
    have stays := within_journal disk held call
    exact ⟨stays.urls, stays.codes⟩
  | database held => exact within_database (held.within_perform call)

/-- What the answer of a put shows of the keys before it and behind it. -/
inductive PutShows (before : Backend) (code : ShortCode) (url : String) :
    Except StorageError Unit → Backend → Prop
  | stored {after : Backend} (newUrl : before.hasUrl url = false)
      (newCode : before.hasCode code = false) (hasUrl : after.hasUrl url = true)
      (hasCode : after.hasCode code = true) : PutShows before code url (.ok ()) after
  | conflict (hasUrl : before.hasUrl url = true) :
      PutShows before code url (.error (.conflict url)) before
  | collision (hasCode : before.hasCode code = true) :
      PutShows before code url (.error (.codeCollision code.text)) before
  | broken {error : StorageError} (noConflict : ∀ other, error ≠ .conflict other)
      (noCollision : ∀ other, error ≠ .codeCollision other) :
      PutShows before code url (.error error) before

variable {disk : Disk} {code : ShortCode} {url owner : String}

/-- What the refusal of an index shows. -/
theorem refusal_cases (index : Index) (code : ShortCode) (url : String) :
    index.refusal? code url = some (.conflict url) ∧ index.byUrl.contains url = true ∨
      index.refusal? code url = some (.codeCollision code.text) ∧
        index.byCode.contains code = true ∨
      index.refusal? code url = none ∧ index.byUrl.contains url = false ∧
        index.byCode.contains code = false := by
  unfold Index.refusal?
  cases index.byUrl.contains url <;> cases index.byCode.contains code <;> simp

theorem store_knows (index : Index) (code : ShortCode) (url owner : String) :
    (index.store code url owner).byUrl.contains url = true ∧
      (index.store code url owner).byCode.contains code = true := by
  simp [Index.store, Keyed.contains_insert]

theorem database_put_shows (held : Database) (code : ShortCode) (url owner : String) :
    PutShows (.database held) code url (held.put code url owner).1
      (.database (held.put code url owner).2) := by
  cases found : held.table with
  | error error =>
    have failed : held.put code url owner = (.error error, held) := by
      simp only [Database.put, Database.attempt, found]
    rw [failed]
    unfold Database.table at found
    split at found
    · cases found
      exact .broken (fun _ => by simp [Database.closedError])
        (fun _ => by simp [Database.closedError])
    · split at found
      · cases found
        exact .broken (fun _ => by simp [Database.statementError])
          (fun _ => by simp [Database.statementError])
      · cases found
  | ok table =>
    have read := (Database.table_ok_iff.1 found).2
    have url_iff : (database held).hasUrl url = table.rows.any (·.hasUrl url) := by
      simp [hasUrl, read]
    have code_iff : (database held).hasCode code = table.rows.any (·.hasCode code) := by
      simp [hasCode, read]
    rw [Database.put_as_batch found]
    simp only [Database.insertAll, LinkTable.insert]
    by_cases blocked : table.blockedInserts.contains code = true
    · simp only [if_pos blocked]
      exact .broken (fun _ => by simp [Database.statementError])
        (fun _ => by simp [Database.statementError])
    · simp only [if_neg blocked]
      by_cases urlTaken : table.rows.any (·.hasUrl url) = true
      · simp only [if_pos urlTaken]
        exact .conflict (url_iff.trans urlTaken)
      · simp only [if_neg urlTaken]
        by_cases codeTaken : table.rows.any (·.hasCode code) = true
        · simp only [if_pos codeTaken]
          exact .collision (code_iff.trans codeTaken)
        · simp only [if_neg codeTaken]
          refine .stored ?_ ?_ ?_ ?_
          · simpa [url_iff] using urlTaken
          · simpa [code_iff] using codeTaken
          · simp [hasUrl, Database.withTable, Row.hasUrl, Row.live]
          · simp [hasCode, Database.withTable, Row.hasCode, Row.live]

theorem put_shows (disk : Disk) (backend : Backend) (code : ShortCode) (url owner : String) :
    PutShows backend code url (backend.perform disk (.put code url owner)).answer
      (backend.perform disk (.put code url owner)).backend := by
  cases backend with
  | memory index =>
    simp only [perform, performMemory, Index.insert]
    rcases refusal_cases index code url with ⟨refused, known⟩ | ⟨refused, known⟩ | ⟨free, new⟩
    · rw [refused]
      exact .conflict known
    · rw [refused]
      exact .collision known
    · rw [free]
      have knows := store_knows index code url owner
      exact .stored new.1 new.2 knows.1 knows.2
  | journal path held =>
    simp only [perform, performJournal, Journal.put]
    rcases refusal_cases held.index code url with ⟨refused, known⟩ | ⟨refused, known⟩ |
      ⟨free, new⟩
    · rw [refused]
      exact .conflict known
    · rw [refused]
      exact .collision known
    · rw [free]
      cases Journal.append_cases disk held (.live code url owner) with
      | inl failed =>
        rcases failed with ⟨cause, broken⟩
        simp only [broken]
        exact .broken (fun _ => by simp [Journal.appendError])
          (fun _ => by simp [Journal.appendError])
      | inr written =>
        have knows := store_knows held.index code url owner
        simp only [written]
        exact .stored new.1 new.2 knows.1 knows.2
  | database held => exact database_put_shows held code url owner

end Backend

end ShortLinks
