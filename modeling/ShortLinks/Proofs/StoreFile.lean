import ShortLinks.Proofs.OfficeLedger
import ShortLinks.Proofs.JournalReplay
import ShortLinks.Storage

/-!
# A store and its file

A store that is kept in a file can be opened again with what it held when it was saved, and other
files of the folder do not matter. That is so from the beginning, where the file is not there.
-/

namespace ShortLinks

set_option autoImplicit false

namespace Folder

variable {folder : Folder} {path name : String}

theorem content_write (folder : Folder) (name : String) (content : FileContent) :
    (folder.write name content).content? name = some content := by
  unfold content? write
  rw [Keyed.find_insert, if_pos rfl]

theorem locate_ok_iff : folder.locate path = .ok name ↔
    path.toList.contains (Char.ofNat 0) = false ∧
      ∃ inner, below? folder.root.toList path.toList = some inner ∧ steps inner = [name] ∧
        name ≠ ".." ∧ ¬ longestName < name.utf8ByteSize ∧ inner.getLast? ≠ some '/' := by
  constructor
  · intro located
    unfold locate at located
    split at located
    · cases located
    · rename_i clean
      split at located
      · cases located
      · rename_i inner below
        split at located
        · cases located
        · cases located
        · rename_i only inside single
          split at located
          · cases located
          · split at located
            · cases located
            · rename_i short closed
              cases located
              exact ⟨by simpa using clean, inner, below, single, inside, short, closed⟩
        · cases located
  · rintro ⟨clean, inner, below, single, inside, short, closed⟩
    unfold locate
    rw [clean, below]
    simp only [single, Bool.false_eq_true, if_false]
    split <;> simp_all

theorem locate_write (located : folder.locate path = .ok name) (other : String)
    (content : FileContent) : (folder.write other content).locate path = .ok name := by
  rw [locate_ok_iff] at located ⊢
  exact located

end Folder

namespace StorageChoice

def batchPolicy : StorageChoice → BatchPolicy
  | memory | file _ => .keepLeading
  | database _ => .allOrNothing

/-- The backend is of the kind that the choice asks for. The log of a journal tells its index. -/
def Fits : StorageChoice → Backend → Prop
  | file _, .journal _ journal => journal.Faithful
  | database _, .database _ => True
  | _, _ => False

variable {choice : StorageChoice} {ledger : Ledger} {folder : Folder} {name : String}

theorem fits_lasting (choice : StorageChoice) : Backend.Lasting choice.Fits := by
  intro α backend call fits
  cases choice <;> cases backend <;> try exact fits
  exact Journal.faithful_grown fits (Journal.grown_perform .roomy _ call)

theorem fits_policy {backend : Backend} (fits : choice.Fits backend) :
    backend.batchPolicy = choice.batchPolicy := by
  cases choice <;> cases backend <;> first | rfl | cases fits

/-- What the file of a choice holds, if it is there. -/
inductive Holding : StorageChoice → Ledger → Option FileContent → Prop
  | noFile (path : String) : Holding (.file path) .empty none
  | log (path : String) {log : Text.Bytes} {ledger : Ledger}
      (faithful : Journal.Faithful ⟨log, ledger.index⟩) :
      Holding (.file path) ledger (some (.plain log))
  | noDatabase {dsn : String} {location : DatabaseLocation}
      (parsed : DatabaseLocation.parse dsn = .ok location) (writable : location.readOnly = false) :
      Holding (.database dsn) .empty none
  | table (dsn : String) (ledger : Ledger) :
      Holding (.database dsn) ledger (some (.database ledger.database.file))

/-- The folder has a place for the file of a choice, and the ledger is in it. -/
structure Rests (choice : StorageChoice) (ledger : Ledger) (folder : Folder) (name : String) :
    Prop where
  located : ∃ path, choice.path? = some path ∧ folder.locate path = .ok name
  holding : choice.Holding ledger (folder.content? name)
  distinct : ledger.Distinct

end StorageChoice

namespace Store

variable {choice : StorageChoice} {ledger : Ledger} {folder : Folder} {name : String}

theorem save_shutdown (store : Store) (folder : Folder) :
    (store.perform .roomy .shutdown).2.1.save folder = store.save folder := by
  rcases store with ⟨backend, home⟩
  cases backend <;> cases home <;> rfl

theorem path_database {dsn path : String} (kept : (StorageChoice.database dsn).path? = some path) :
    ∃ location, DatabaseLocation.parse dsn = .ok location ∧ isVolatile location = false ∧
      location.path = path := by
  simp only [StorageChoice.path?] at kept
  split at kept
  · cases kept
  · rename_i location parsed
    split at kept
    · cases kept
    · rename_i lasting
      exact ⟨location, parsed, by simpa using lasting, Option.some.inj kept⟩

theorem open_rests (rests : choice.Rests ledger folder name) {settings : StorageSettings}
    (chosen : settings.choice = choice) :
    ∃ store, (openChosen folder settings).outcome = .ok store ∧ store.home = some name ∧
      store.backend.Holds ledger ∧ choice.Fits store.backend ∧
      ∃ path, choice.path? = some path ∧
        (openChosen folder settings).folder.locate path = .ok name := by
  rcases rests with ⟨⟨path, place, found⟩, holding, distinct⟩
  unfold openChosen
  rw [chosen]
  generalize stored : folder.content? name = content at holding
  cases holding with
  | noFile file =>
    obtain rfl : file = path := Option.some.inj place
    have opened : (Journal.ofLog file []).outcome = .ok ⟨[], Index.empty⟩ := rfl
    simp only [openJournal, found, stored, opened]
    refine ⟨_, rfl, rfl, ⟨rfl, distinct⟩, ⟨.inl rfl, rfl⟩, file, rfl, ?_⟩
    exact Folder.locate_write found name _
  | log file faithful =>
    obtain rfl : file = path := Option.some.inj place
    simp only [openJournal, found, stored, Journal.reopen_faithful faithful file]
    exact ⟨_, rfl, rfl, ⟨rfl, distinct⟩, faithful, file, rfl, Folder.locate_write found name _⟩
  | @noDatabase dsn location parsed writable =>
    rcases path_database place with ⟨other, again, lasting, rfl⟩
    obtain rfl : location = other := Except.ok.inj (parsed.symm.trans again)
    simp only [parsed, openDatabase, lasting, found, stored, writable, Bool.false_eq_true, if_false]
    refine ⟨⟨.database Ledger.empty.database, some name⟩, rfl, rfl, ⟨rfl, distinct⟩, trivial,
      location.path, place, ?_⟩
    exact Folder.locate_write found name _
  | table dsn ledger =>
    rcases path_database place with ⟨location, parsed, lasting, rfl⟩
    simp only [parsed, openDatabase, lasting, found, stored, Bool.false_eq_true, if_false]
    refine ⟨⟨.database ledger.database, some name⟩, rfl, rfl, ⟨rfl, distinct⟩, trivial,
      location.path, place, ?_⟩
    exact Folder.locate_write found name _

theorem save_rests {store : Store} (fits : choice.Fits store.backend)
    (holds : store.backend.Holds ledger) (home : store.home = some name)
    (located : ∃ path, choice.path? = some path ∧ folder.locate path = .ok name) :
    choice.Rests ledger (store.save folder) name := by
  rcases located with ⟨path, place, found⟩
  rcases store with ⟨backend, _⟩
  cases home
  cases choice with
  | memory => cases place
  | file file =>
    cases backend with
    | journal shown journal =>
      have indexed : journal.index = ledger.index := holds.keeps
      have faithful : Journal.Faithful ⟨journal.log, ledger.index⟩ := by
        rw [← indexed]
        exact fits
      refine ⟨⟨path, place, Folder.locate_write found name _⟩, ?_, holds.distinct⟩
      simp only [save, Folder.content_write]
      exact .log file faithful
    | memory | database => cases fits
  | database dsn =>
    cases backend with
    | database database =>
      have same : database = ledger.database := holds.keeps
      subst same
      refine ⟨⟨path, place, Folder.locate_write found name _⟩, ?_, holds.distinct⟩
      simp only [save, Folder.content_write]
      exact .table dsn ledger
    | memory | journal => cases fits

/-- The storage can be opened, and is kept in a file that is not there before. A database in memory
has no file, and is a new one whenever it is opened. What a path or a connection string is taken for
is said where it is read: of names that a system or an engine reads otherwise nothing is meant. -/
def New (folder : Folder) (settings : StorageSettings) : Prop :=
  ∃ store name, (openChosen folder settings).outcome = .ok store ∧ store.home = some name ∧
    folder.content? name = none

theorem connect_home {home : Option String} {file : DatabaseFile} {store : Store}
    (connected : (connect folder home file).outcome = .ok store) : store.home = home := by
  unfold connect at connected
  split at connected <;> cases connected
  rfl

theorem journal_home {path : String} {store : Store}
    (opened : (openJournal folder path).outcome = .ok store) :
    ∃ place, folder.locate path = .ok place ∧ store.home = some place := by
  unfold openJournal at opened
  split at opened
  · cases opened
  · rename_i place found
    refine ⟨place, found, ?_⟩
    split at opened
    · cases opened
    · simp only [Except.map] at opened
      split at opened <;> cases opened
      rfl

theorem database_home {location : DatabaseLocation} {store : Store} {name : String}
    (opened : (openDatabase folder location).outcome = .ok store) (home : store.home = some name)
    (missing : folder.content? name = none) :
    isVolatile location = false ∧ folder.locate location.path = .ok name ∧
      location.readOnly = false := by
  unfold openDatabase at opened
  split at opened
  · rw [connect_home opened] at home
    cases home
  · rename_i lasting
    split at opened
    · cases opened
    · rename_i place found
      split at opened
      · split at opened
        · cases opened
        · rename_i writable
          rw [connect_home opened] at home
          cases home
          exact ⟨by simpa using lasting, found, by simpa using writable⟩
      · rename_i content stored
        split at opened
        · cases opened
        · rw [connect_home opened] at home
          cases home
          rw [missing] at stored
          cases stored

/-- Where the file is not there, the empty ledger rests. -/
theorem new_rests {settings : StorageSettings} (new : New folder settings) :
    ∃ name, settings.choice.Rests .empty folder name := by
  rcases new with ⟨store, name, opened, home, missing⟩
  refine ⟨name, ?_⟩
  unfold openChosen at opened
  cases choice : settings.choice with
  | memory =>
    rw [choice] at opened
    cases opened
    cases home
  | file path =>
    rw [choice] at opened
    rcases journal_home opened with ⟨place, found, same⟩
    obtain rfl : name = place := Option.some.inj (home.symm.trans same)
    refine ⟨⟨path, rfl, found⟩, ?_, Ledger.empty_distinct⟩
    rw [missing]
    exact .noFile path
  | database dsn =>
    rw [choice] at opened
    cases parsed : DatabaseLocation.parse dsn with
    | error fault => simp [parsed] at opened
    | ok location =>
      simp only [parsed] at opened
      rcases database_home opened home missing with ⟨lasting, found, writable⟩
      refine ⟨⟨location.path, ?_, found⟩, ?_, Ledger.empty_distinct⟩
      · simp only [StorageChoice.path?, parsed, lasting, Bool.false_eq_true, if_false]
      · rw [missing]
        exact .noDatabase parsed writable

end Store

end ShortLinks
