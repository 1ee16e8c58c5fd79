import ShortLinks.Proofs.JournalReplay
import ShortLinks.Proofs.LedgerHistory

/-!
# What a call leaves behind

A call may fail, and it may fail part way: the disk refuses a line, a statement of a transaction
fails, the connections are closed. Whatever happens, the store holds a ledger again: the one
before with the first entries of a batch stored, or with some of the tombstones set that were
asked for.
-/

namespace ShortLinks

set_option autoImplicit false

namespace Ledger

variable {ledger after : Ledger}

/-- What may be left of a call. -/
def Partly {α : Type} (ledger : Ledger) (call : StoreCall α) (after : Ledger) : Prop :=
  match call with
  | .put code url owner => after = ledger ∨ after = (ledger.put code url owner).2
  | .putBatch entries owner =>
      ∃ stored, stored <+: entries ∧ after = (putLeading owner stored ledger).2
  | .markDeleted codes owner => ∃ buried ⊆ codes, after = ledger.markDeleted buried owner
  | _ => after = ledger

theorem partly_refl {α : Type} (ledger : Ledger) (call : StoreCall α) :
    ledger.Partly call ledger := by
  cases call with
  | put code url owner => exact .inl rfl
  | putBatch entries owner => exact ⟨[], List.nil_prefix, rfl⟩
  | markDeleted codes owner =>
    exact ⟨[], List.nil_subset codes, (markDeleted_nil ledger owner).symm⟩
  | _ => exact rfl

theorem partly_perform {α : Type} (ledger : Ledger) (policy : BatchPolicy) (call : StoreCall α) :
    ledger.Partly call (ledger.perform policy call).2 := by
  cases call with
  | put code url owner => exact .inr rfl
  | putBatch entries owner =>
    cases policy with
    | keepLeading => exact ⟨entries, List.prefix_refl entries, rfl⟩
    | allOrNothing =>
      simp only [perform, putBatch, putTogether]
      cases stored : putLeading owner entries ledger with
      | mk answer next =>
        cases answer with
        | error error => exact partly_refl ledger (.putBatch entries owner)
        | ok done => exact ⟨entries, List.prefix_refl entries, by rw [stored]⟩
  | markDeleted codes owner => exact ⟨codes, List.Subset.refl codes, rfl⟩
  | _ => exact rfl

theorem partly_distinct {α : Type} {call : StoreCall α} (distinct : ledger.Distinct)
    (partly : ledger.Partly call after) : after.Distinct := by
  cases call with
  | put code url owner =>
    rcases partly with rfl | rfl
    · exact distinct
    · exact put_distinct distinct code url owner
  | putBatch entries owner =>
    rcases partly with ⟨stored, _, rfl⟩
    exact putLeading_distinct owner stored distinct
  | markDeleted codes owner =>
    rcases partly with ⟨buried, _, rfl⟩
    exact markDeleted_distinct distinct buried owner
  | _ =>
    cases partly
    exact distinct

end Ledger

namespace Journal

variable {journal : Journal} {ledger : Ledger}

theorem put_either (disk : Disk) (journal : Journal) (code : ShortCode) (url owner : String) :
    (∃ cause, journal.put disk code url owner = (.error (appendError cause), journal)) ∨
      journal.put disk code url owner = journal.put .roomy code url owner := by
  unfold put
  cases journal.index.refusal? code url with
  | some error => exact .inr rfl
  | none =>
    rcases append_cases disk journal (.live code url owner) with ⟨cause, failed⟩ | stored
    · left
      refine ⟨cause, ?_⟩
      rw [failed]
    · right
      rw [stored]
      rfl

theorem bury_either (disk : Disk) (journal : Journal) (code : ShortCode) (owner : String) :
    (∃ cause, journal.bury disk code owner = (.error (appendError cause), journal)) ∨
      journal.bury disk code owner = journal.bury .roomy code owner := by
  unfold bury
  by_cases able : journal.index.canBury code owner = true
  · rw [if_pos able, if_pos able]
    rcases append_cases disk journal (.tombstone code (journal.urlOf code) owner) with
      ⟨cause, failed⟩ | stored
    · left
      refine ⟨cause, ?_⟩
      rw [failed]
    · right
      rw [stored]
      rfl
  · right
    rw [if_neg able, if_neg able]

theorem put_partly (disk : Disk) (indexed : journal.index = ledger.index) (code : ShortCode)
    (url owner : String) :
    (∃ cause, journal.put disk code url owner = (.error (appendError cause), journal)) ∨
      (journal.put disk code url owner).1 = (ledger.put code url owner).1 ∧
        (journal.put disk code url owner).2.index = (ledger.put code url owner).2.index := by
  cases put_either disk journal code url owner with
  | inl failed => exact .inl failed
  | inr same =>
    rcases put_roomy journal code url owner with ⟨answered, changed⟩
    rw [indexed, Ledger.index_insert] at answered changed
    rw [same]
    exact .inr ⟨answered, changed⟩

theorem putLeading_partly (disk : Disk) (owner : String) (entries : List BatchEntry)
    (indexed : journal.index = ledger.index) :
    ∃ stored, stored <+: entries ∧ (putLeading disk owner entries journal).2.index =
      (Ledger.putLeading owner stored ledger).2.index := by
  induction entries generalizing journal ledger with
  | nil => exact ⟨[], List.nil_prefix, indexed⟩
  | cons entry entries induction =>
    unfold putLeading
    cases put_partly disk indexed entry.code entry.url owner with
    | inl broken =>
      rcases broken with ⟨cause, failed⟩
      rw [failed]
      exact ⟨[], List.nil_prefix, indexed⟩
    | inr done =>
      rcases done with ⟨answered, changed⟩
      cases put : journal.put disk entry.code entry.url owner with
      | mk answer next =>
        rw [put] at answered changed
        cases answer with
        | error error =>
          -- The ledger refuses the entry as well, and stays as it is.
          refine ⟨[entry], by simp, ?_⟩
          simp only at changed ⊢
          rw [changed, Ledger.putLeading]
          cases held : ledger.put entry.code entry.url owner with
          | mk reply same =>
            rw [held] at answered
            cases answered
            rfl
        | ok done =>
          rcases induction changed with ⟨stored, front, reached⟩
          refine ⟨entry :: stored, List.cons_prefix_cons.2 ⟨rfl, front⟩, ?_⟩
          simp only at reached ⊢
          rw [reached, Ledger.putLeading]
          cases held : ledger.put entry.code entry.url owner with
          | mk reply extended =>
            rw [held] at answered
            cases answered
            rfl

theorem markDeleted_partly (disk : Disk) (owner : String) (codes : List ShortCode)
    (distinct : ledger.Distinct) (indexed : journal.index = ledger.index) :
    ∃ buried ⊆ codes, (markDeleted disk owner codes journal).2.index =
      (ledger.markDeleted buried owner).index := by
  have none : ledger.index = (ledger.markDeleted [] owner).index := by
    rw [Ledger.markDeleted_nil]
  induction codes generalizing journal ledger with
  | nil => exact ⟨[], List.nil_subset [], indexed.trans none⟩
  | cons code codes induction =>
    unfold markDeleted
    cases bury_either disk journal code owner with
    | inl broken =>
      rcases broken with ⟨cause, failed⟩
      rw [failed]
      exact ⟨[], List.nil_subset _, indexed.trans none⟩
    | inr same =>
      rw [same]
      rcases bury_roomy journal code owner with ⟨answered, changed⟩
      rw [indexed, Ledger.index_bury distinct] at changed
      cases buried : journal.bury .roomy code owner with
      | mk answer next =>
        rw [buried] at answered changed
        simp only at answered changed
        subst answered
        have between := Ledger.markDeleted_distinct distinct [code] owner
        rcases induction between changed (by rw [Ledger.markDeleted_nil]) with
          ⟨more, within, reached⟩
        refine ⟨code :: more, List.cons_subset_cons code within, ?_⟩
        rw [Ledger.markDeleted_cons]
        exact reached

end Journal

namespace Ledger

/-- The table of the ledger, where statements on some codes fail. -/
def tableUnder (ledger : Ledger) (inserts updates : List ShortCode) : LinkTable :=
  ⟨ledger.table.rows, inserts, updates⟩

def databaseUnder (ledger : Ledger) (inserts updates : List ShortCode) (connected : Bool) :
    Database :=
  ⟨⟨some .done, some (ledger.tableUnder inserts updates)⟩, connected⟩

variable (inserts updates : List ShortCode)

theorem insert_under (ledger : Ledger) (code : ShortCode) (url owner : String) :
    (∃ error, (ledger.tableUnder inserts updates).insert code url owner = .error error) ∨
      (ledger.tableUnder inserts updates).insert code url owner =
        .ok (false, ledger.tableUnder inserts updates) ∨
      ledger.put code url owner = (.ok (), ledger.extend code url owner) ∧
        (ledger.tableUnder inserts updates).insert code url owner =
          .ok (true, (ledger.extend code url owner).tableUnder inserts updates) := by
  unfold LinkTable.insert tableUnder
  simp only [table_any_url, table_any_code]
  split_ifs with blocked urlTaken codeTaken
  · exact .inl ⟨_, rfl⟩
  · exact .inr (.inl rfl)
  · exact .inl ⟨_, rfl⟩
  · right
    right
    constructor
    · simp only [put, refusal?, if_neg urlTaken, if_neg codeTaken, extend]
    · simp [table, extend, Row.live, Row.ofRecord]

theorem bury_under (ledger : Ledger) (code : ShortCode) (owner : String) :
    (∃ error, (ledger.tableUnder inserts updates).bury code owner = .error error) ∨
      (ledger.tableUnder inserts updates).bury code owner =
        .ok ((ledger.markDeleted [code] owner).tableUnder inserts updates) := by
  unfold LinkTable.bury tableUnder
  simp only
  split_ifs with blocked
  · exact .inl ⟨_, rfl⟩
  · right
    simp only [table, List.map_map, markDeleted_records, Function.comp_def, row_buried]

theorem attempt_under (ledger : Ledger) (connected : Bool) (code : ShortCode)
    (url owner : String) :
    ∃ after, ledger.Partly (.put code url owner) after ∧
      ((ledger.databaseUnder inserts updates connected).attempt code url owner).2 =
        after.databaseUnder inserts updates connected := by
  have same := partly_refl ledger (.put code url owner)
  cases connected with
  | false => exact ⟨ledger, same, rfl⟩
  | true =>
    have held : (ledger.databaseUnder inserts updates true).table =
        .ok (ledger.tableUnder inserts updates) := rfl
    simp only [Database.attempt, held]
    rcases insert_under inserts updates ledger code url owner with
      ⟨error, failed⟩ | taken | ⟨free, added⟩
    · rw [failed]
      refine ⟨ledger, same, ?_⟩
      cases error <;> rfl
    · rw [taken]
      exact ⟨ledger, same, rfl⟩
    · rw [added]
      exact ⟨ledger.extend code url owner, .inr (by rw [free]), rfl⟩

theorem put_under (ledger : Ledger) (connected : Bool) (code : ShortCode) (url owner : String) :
    ((ledger.databaseUnder inserts updates connected).put code url owner).2 =
      ((ledger.databaseUnder inserts updates connected).attempt code url owner).2 := by
  unfold Database.put
  rcases (ledger.databaseUnder inserts updates connected).attempt code url owner with
    ⟨outcome, next⟩
  cases outcome <;> rfl

theorem insertAll_under (owner : String) (entries : List BatchEntry) (ledger : Ledger) :
    (∃ error, Database.insertAll owner entries (ledger.tableUnder inserts updates) =
        .error error) ∨
      Database.insertAll owner entries (ledger.tableUnder inserts updates) =
        .ok ((putLeading owner entries ledger).2.tableUnder inserts updates) := by
  induction entries generalizing ledger with
  | nil => exact .inr rfl
  | cons entry entries induction =>
    unfold Database.insertAll putLeading
    rcases insert_under inserts updates ledger entry.code entry.url owner with
      ⟨error, failed⟩ | taken | ⟨free, added⟩
    · left
      rw [failed]
      cases error <;> exact ⟨_, rfl⟩
    · left
      rw [taken]
      exact ⟨_, rfl⟩
    · rw [free, added]
      exact induction _

theorem buryAll_under (owner : String) (codes : List ShortCode) (ledger : Ledger) :
    ∃ buried ⊆ codes, (Database.buryAll owner codes (some (ledger.tableUnder inserts updates))).1 =
      some ((ledger.markDeleted buried owner).tableUnder inserts updates) := by
  induction codes generalizing ledger with
  | nil => exact ⟨[], List.nil_subset [], by rw [markDeleted_nil]; rfl⟩
  | cons code codes induction =>
    unfold Database.buryAll
    cases bury_under inserts updates ledger code owner with
    | inl failed =>
      rcases failed with ⟨error, failed⟩
      rcases induction ledger with ⟨buried, within, reached⟩
      refine ⟨buried, List.subset_cons_of_subset code within, ?_⟩
      simp only [failed]
      exact reached
    | inr done =>
      rcases induction (ledger.markDeleted [code] owner) with ⟨buried, within, reached⟩
      refine ⟨code :: buried, List.cons_subset_cons code within, ?_⟩
      rw [markDeleted_cons]
      simp only [done]
      exact reached

end Ledger

namespace Backend

/-- The backend holds what the ledger holds, however it answers. -/
def Stores (backend : Backend) (ledger : Ledger) : Prop :=
  match backend with
  | .memory index => index = ledger.index
  | .journal _ held => held.index = ledger.index
  | .database held =>
      ∃ inserts updates connected, held = ledger.databaseUnder inserts updates connected

theorem database_partly {α : Type} (ledger : Ledger) (inserts updates : List ShortCode)
    (connected : Bool) (call : StoreCall α) :
    ∃ after, ledger.Partly call after ∧ (Backend.database
      (performDatabase (ledger.databaseUnder inserts updates connected) call).2.1).Stores after := by
  cases call with
  | put code url owner =>
    rcases Ledger.attempt_under inserts updates ledger connected code url owner with
      ⟨after, partly, reached⟩
    rw [← Ledger.put_under] at reached
    exact ⟨after, partly, inserts, updates, connected, reached⟩
  | putBatch entries owner =>
    have same := ledger.partly_refl (.putBatch entries owner)
    cases connected with
    | false => exact ⟨ledger, same, inserts, updates, false, rfl⟩
    | true =>
      cases entries with
      | nil => exact ⟨ledger, same, inserts, updates, true, rfl⟩
      | cons entry entries =>
        simp only [performDatabase, Database.putTogether, Ledger.databaseUnder]
        cases Ledger.insertAll_under inserts updates owner (entry :: entries) ledger with
        | inl failed =>
          rcases failed with ⟨error, failed⟩
          rw [failed]
          exact ⟨ledger, same, inserts, updates, true, rfl⟩
        | inr done =>
          rw [done]
          exact ⟨_, ⟨entry :: entries, List.prefix_refl _, rfl⟩, inserts, updates, true, rfl⟩
  | markDeleted codes owner =>
    cases connected with
    | false =>
      exact ⟨ledger, ledger.partly_refl (.markDeleted codes owner), inserts, updates, false, rfl⟩
    | true =>
      rcases Ledger.buryAll_under inserts updates owner codes ledger with
        ⟨buried, within, reached⟩
      refine ⟨_, ⟨buried, within, rfl⟩, inserts, updates, true, ?_⟩
      simp only [performDatabase, Database.markDeleted, Ledger.databaseUnder, reached]
      rfl
  | shutdown => exact ⟨ledger, rfl, inserts, updates, false, rfl⟩
  | _ => exact ⟨ledger, rfl, inserts, updates, connected, rfl⟩

/-- Whatever fails, a part of the call was done, and nothing else. -/
theorem perform_partly {α : Type} {backend : Backend} {ledger : Ledger}
    (stores : backend.Stores ledger) (distinct : ledger.Distinct) (disk : Disk)
    (call : StoreCall α) :
    ∃ after, ledger.Partly call after ∧ (backend.perform disk call).backend.Stores after := by
  cases backend with
  | memory index =>
    have same : index = ledger.index := stores
    rw [same]
    exact ⟨_, ledger.partly_perform .keepLeading call,
      congrArg Prod.snd (memory_as_ledger distinct call)⟩
  | journal path journal =>
    have indexed : journal.index = ledger.index := stores
    cases call with
    | put code url owner =>
      cases Journal.put_partly disk indexed code url owner with
      | inl broken =>
        rcases broken with ⟨cause, failed⟩
        have same : (journal.put disk code url owner).2.index = ledger.index := by
          rw [failed]
          exact indexed
        exact ⟨ledger, .inl rfl, same⟩
      | inr done => exact ⟨_, .inr rfl, done.2⟩
    | putBatch entries owner =>
      rcases Journal.putLeading_partly disk owner entries indexed with ⟨stored, front, reached⟩
      exact ⟨_, ⟨stored, front, rfl⟩, reached⟩
    | markDeleted codes owner =>
      rcases Journal.markDeleted_partly disk owner codes distinct indexed with
        ⟨buried, within, reached⟩
      exact ⟨_, ⟨buried, within, rfl⟩, reached⟩
    | _ => exact ⟨ledger, rfl, indexed⟩
  | database database =>
    rcases stores with ⟨inserts, updates, connected, rfl⟩
    exact database_partly ledger inserts updates connected call

end Backend

end ShortLinks
