import ShortLinks.Proofs.Desk
import ShortLinks.Proofs.JournalTorn
import ShortLinks.Proofs.Reached
import ShortLinks.Proofs.RecordHistory

/-!
# History is never rewritten

Callers and workers use a store side by side, disks and statements fail, and the store may be
closed and opened again. Each step does to the records what a part of one call does to them, or
nothing at all. So a record that is there stays there, and its tombstone comes from its owner.
-/

namespace ShortLinks

set_option autoImplicit false

open Deletion (Event Move Outcome Pipeline)

def Deletion.Outcome.ofAnswer : Except StorageError Unit → Outcome
  | .ok _ => .applied
  | .error cause => .failed cause

namespace Backend

/-- The backend as it was opened, a journal on any log that can be replayed. -/
def Initial (backend : Backend) : Prop :=
  match backend with
  | .memory index => index = Index.empty
  | .journal path held => ∃ log, (Journal.ofLog path log).outcome = .ok held
  | .database held => (Database.connect .fresh).1 = .ok held

def reopen? : Backend → Option Backend
  | .memory _ => none
  | .journal path held =>
      match (Journal.ofLog path held.log).outcome with
      | .ok again => some (.journal path again)
      | .error _ => none
  | .database held =>
      match (Database.connect held.file).1 with
      | .ok again => some (.database again)
      | .error _ => none

/-- From now on the statements of a database on these codes fail. -/
def hinder? (inserts updates : List ShortCode) : Backend → Option Backend
  | .database held =>
      held.file.table.map fun table =>
        .database (held.withTable ⟨table.rows, inserts, updates⟩)
  | _ => none

/-- The answer to a question. A database whose connections were closed is connected again. -/
def tells {α : Type} (backend : Backend) (call : StoreCall α) : Except StorageError α :=
  match backend with
  | .memory index => (performMemory index call).1
  | .journal _ held => (performJournal .roomy held call).1
  | .database held => (performDatabase { held with connected := true } call).1

end Backend

/-- What can happen around a store. A deletion by a worker reaches the store, on the disk as it is
then, or it does not. -/
inductive Deed
  | call (disk : Disk) (ask : Ask)
  | work (move : Move) (reached : Option Disk)
  | hinder (inserts updates : List ShortCode)
  | reopen (settings : DeletionSettings)

namespace Backend

/-- What the events of a pipeline do to the store, and the call that they make. A panic may come
before the store is reached or after. -/
def hand? (backend : Backend) (reached : Option Disk) : List Event → Option (Backend × List Ask)
  | [.ended _ entry outcome] =>
      let call : StoreCall Unit := .markDeleted entry.request.codes entry.request.owner
      match reached with
      | none => if outcome = .applied then none else some (backend, [])
      | some disk =>
          let answered := backend.perform disk call
          if outcome = .panicked ∨ outcome = .ofAnswer answered.answer then
            some (answered.backend, [⟨call⟩])
          else none
  | _ => some (backend, [])

end Backend

namespace Desk

def deed? (desk : Desk) : Deed → Option (Desk × List Ask)
  | .call disk ask => some (⟨desk.pipeline, (desk.backend.perform disk ask.call).backend⟩, [ask])
  | .work move reached =>
      match desk.pipeline.move? move with
      | none => none
      | some (pipeline, events) =>
          (desk.backend.hand? reached events).map fun (backend, made) => (⟨pipeline, backend⟩, made)
  | .hinder inserts updates =>
      (desk.backend.hinder? inserts updates).map fun backend => (⟨desk.pipeline, backend⟩, [])
  | .reopen settings =>
      desk.backend.reopen?.map fun backend => (⟨.start settings, backend⟩, [])

/-- Steps one after the other, with the calls that reached the store. -/
def deeds? (deeds : List Deed) (desk : Desk) : Option (Desk × List Ask) :=
  takeAll? deed? deeds desk

end Desk

theorem Journal.reopened_grown {path : String} {first journal again : Journal}
    (replayed : (replay first.log).outcome = .ok first.index) (grown : first.Grown journal)
    (opened : (ofLog path journal.log).outcome = .ok again) : again = journal := by
  rcases grown with ⟨written, log, index⟩
  have same : (replay journal.log).outcome = .ok journal.index := by
    cases written with
    | nil =>
      rw [log, index, List.flatMap_nil, List.append_nil]
      exact replayed
    | cons line later =>
      by_cases torn : Torn first.log
      · rw [ofLog_outcome, log, torn_log_refused replayed torn] at opened
        cases opened
      · rw [log, index]
        exact blank_log_kept replayed torn line later
  rw [ofLog_outcome, same] at opened
  cases opened
  rfl

namespace Backend

variable {backend next : Backend} {ledger after : Ledger} {made : List Ask}

/-- The backend stores a ledger. The log of a journal began as one that could be replayed. -/
structure Genuine (backend : Backend) (ledger : Ledger) : Prop where
  stores : backend.Stores ledger
  distinct : ledger.Distinct
  grown : ∀ {path : String} {journal : Journal}, backend = .journal path journal →
    ∃ first : Journal, (replay first.log).outcome = .ok first.index ∧ first.Grown journal

theorem genuine_initial (initial : backend.Initial) : ∃ ledger, backend.Genuine ledger := by
  cases backend with
  | memory index => exact ⟨Ledger.empty, initial, Ledger.empty_distinct, fun other => by cases other⟩
  | journal path journal =>
    rcases initial with ⟨log, opened⟩
    rcases Journal.open_replayed opened with ⟨rfl, replayed⟩
    rcases Replay.lines_ledger Ledger.empty_distinct replayed with ⟨ledger, indexed, distinct⟩
    refine ⟨ledger, indexed, distinct, ?_⟩
    intro path journal same
    cases same
    exact ⟨journal, replayed, journal.grown_refl⟩
  | database database =>
    refine ⟨Ledger.empty, ?_, Ledger.empty_distinct, fun other => by cases other⟩
    cases (show Except.ok Ledger.empty.database = Except.ok database from initial)
    exact ⟨[], [], true, rfl⟩

theorem genuine_perform {α : Type} (genuine : backend.Genuine ledger) (disk : Disk)
    (call : StoreCall α) :
    ∃ after, ledger.Ages [⟨call⟩] after ∧ (backend.perform disk call).backend.Genuine after := by
  rcases perform_partly genuine.stores genuine.distinct disk call with ⟨after, partly, stores⟩
  refine ⟨after, Ledger.partly_ages partly, stores,
    Ledger.partly_distinct genuine.distinct partly, ?_⟩
  intro path journal same
  cases backend with
  | memory index => cases same
  | database database => cases same
  | journal path before =>
    cases same
    rcases genuine.grown rfl with ⟨first, replayed, grown⟩
    exact ⟨first, replayed, Journal.grown_trans grown (Journal.grown_perform disk before call)⟩

theorem genuine_reopen (genuine : backend.Genuine ledger) (opened : backend.reopen? = some next) :
    next.Genuine ledger := by
  cases backend with
  | memory index => cases opened
  | journal path journal =>
    rcases genuine.grown rfl with ⟨first, replayed, grown⟩
    simp only [reopen?] at opened
    split at opened
    · rename_i again outcome
      cases opened
      rw [Journal.reopened_grown replayed grown outcome]
      exact genuine
    · cases opened
  | database database =>
    rcases genuine.stores with ⟨inserts, updates, connected, rfl⟩
    cases opened
    exact ⟨⟨inserts, updates, true, rfl⟩, genuine.distinct, fun other => by cases other⟩

theorem genuine_hinder {inserts updates : List ShortCode} (genuine : backend.Genuine ledger)
    (hindered : backend.hinder? inserts updates = some next) : next.Genuine ledger := by
  cases backend with
  | memory index => cases hindered
  | journal path journal => cases hindered
  | database database =>
    rcases genuine.stores with ⟨before, behind, connected, rfl⟩
    cases hindered
    exact ⟨⟨inserts, updates, connected, rfl⟩, genuine.distinct, fun other => by cases other⟩

theorem genuine_hand {reached : Option Disk} {events : List Event}
    (genuine : backend.Genuine ledger)
    (handed : backend.hand? reached events = some (next, made)) :
    ∃ after, ledger.Ages made after ∧ next.Genuine after := by
  unfold hand? at handed
  split at handed
  · rename_i entry outcome
    cases reached with
    | none =>
      simp only at handed
      split at handed
      · cases handed
      · cases handed
        exact ⟨ledger, Ledger.ages_refl [] ledger, genuine⟩
    | some disk =>
      simp only at handed
      split at handed
      · cases handed
        exact genuine_perform genuine disk _
      · cases handed
  · cases handed
    exact ⟨ledger, Ledger.ages_refl [] ledger, genuine⟩

end Backend

namespace Desk

variable {desk next : Desk} {made : List Ask}

theorem genuine_deed {ledger : Ledger} {deed : Deed} (genuine : desk.backend.Genuine ledger)
    (done : desk.deed? deed = some (next, made)) :
    ∃ after, ledger.Ages made after ∧ next.backend.Genuine after := by
  cases deed with
  | call disk ask =>
    cases done
    exact Backend.genuine_perform genuine disk ask.call
  | work move reached =>
    simp only [deed?] at done
    split at done
    · cases done
    · rcases Option.map_eq_some_iff.1 done with ⟨⟨backend, asked⟩, handed, same⟩
      cases same
      exact Backend.genuine_hand genuine handed
  | hinder inserts updates =>
    rcases Option.map_eq_some_iff.1 done with ⟨backend, hindered, same⟩
    cases same
    exact ⟨ledger, Ledger.ages_refl [] ledger, Backend.genuine_hinder genuine hindered⟩
  | reopen settings =>
    rcases Option.map_eq_some_iff.1 done with ⟨backend, opened, same⟩
    cases same
    exact ⟨ledger, Ledger.ages_refl [] ledger, Backend.genuine_reopen genuine opened⟩

theorem genuine_deeds {ledger : Ledger} {deeds : List Deed}
    (genuine : desk.backend.Genuine ledger) (done : deeds? deeds desk = some (next, made)) :
    ∃ after, ledger.Ages made after ∧ next.backend.Genuine after := by
  have begins : ∃ after, ledger.Ages [] after ∧ desk.backend.Genuine after :=
    ⟨ledger, Ledger.ages_refl [] ledger, genuine⟩
  apply take_all_keeps (fun (desk : Desk) past =>
    ∃ after, ledger.Ages past after ∧ desk.backend.Genuine after) _ begins done
  rintro state next past made step ⟨between, aged, held⟩ stepped
  rcases genuine_deed held stepped with ⟨after, later, kept⟩
  exact ⟨after, Ledger.ages_trans aged later, kept⟩

end Desk

namespace Backend

variable {backend before after : Backend} {ledger : Ledger} {made : List Ask}

theorem tells_ledger {α : Type} (genuine : backend.Genuine ledger) (call : StoreCall α)
    (asks : call.writer? = none) (records : (Ask.mk call).aboutRecords = true) :
    backend.tells call = (ledger.perform .keepLeading call).1 := by
  have remembered := congrArg Prod.fst (memory_as_ledger genuine.distinct call)
  have stores := genuine.stores
  cases backend with
  | memory index =>
    have same : index = ledger.index := stores
    rw [same]
    exact remembered
  | journal path journal =>
    have indexed : journal.index = ledger.index := stores
    have answered := (journal_as_memory journal call).1
    rw [indexed] at answered
    exact answered.trans remembered
  | database database =>
    rcases stores with ⟨inserts, updates, connected, rfl⟩
    cases call with
    | get code => exact ledger.database_get code
    | findUrl url => exact ledger.database_findUrl url
    | listByOwner owner => exact ledger.database_listByOwner owner
    | stats => exact ledger.database_stats
    | put | putBatch | markDeleted => cases asks
    | probe | shutdown => cases records

theorem tells_get (genuine : backend.Genuine ledger) (code : ShortCode) :
    backend.tells (.get code) = ledger.get code := tells_ledger genuine (.get code) rfl rfl

theorem tells_findUrl (genuine : backend.Genuine ledger) (url : String) :
    backend.tells (.findUrl url) = .ok (ledger.findUrl url) :=
  tells_ledger genuine (.findUrl url) rfl rfl

theorem tells_listByOwner (genuine : backend.Genuine ledger) (owner : String) :
    backend.tells (.listByOwner owner) = .ok (ledger.listByOwner owner) :=
  tells_ledger genuine (.listByOwner owner) rfl rfl

/-- Nothing that the first backend knows is ever contradicted by the second, and between them a
tombstone is set only where a call of the owner asked for it. -/
structure Recalls (made : List Ask) (before after : Backend) : Prop where
  found {url : String} {code : ShortCode} : before.tells (.findUrl url) = .ok (some code) →
    after.tells (.findUrl url) = .ok (some code)
  resolved {code : ShortCode} {url : String} : before.tells (.get code) = .ok (some url) →
    after.tells (.get code) = .ok (some url) ∨
      after.tells (.get code) = .error (.deleted code.text)
  gone {code : ShortCode} : before.tells (.get code) = .error (.deleted code.text) →
    after.tells (.get code) = .error (.deleted code.text)
  listed (owner : String) : ∃ (old added : List LinkRecord) (change : LinkRecord → LinkRecord),
    before.tells (.listByOwner owner) = .ok old ∧
      after.tells (.listByOwner owner) = .ok (old.map change ++ added) ∧
      ∀ record ∈ old, record.Ages made (change record)
  bound {owner name : String} {old current : List LinkRecord} {record again : LinkRecord} :
    before.tells (.listByOwner owner) = .ok old → record ∈ old →
      after.tells (.listByOwner name) = .ok current → again ∈ current →
      again.code = record.code → again.bond = record.bond
  isolated (owner : String) : (∀ ask ∈ made, ask.writer? ≠ some owner) →
    after.tells (.listByOwner owner) = before.tells (.listByOwner owner)

theorem recalls_of_ages {later : Ledger} (held : before.Genuine ledger)
    (kept : after.Genuine later) (ages : ledger.Ages made later) :
    Recalls made before after := by
  constructor
  · intro url code known
    rw [tells_findUrl held, Except.ok.injEq] at known
    rw [tells_findUrl kept, Ledger.find_url_grows (Ledger.grows_of_ages ages) known]
  · intro code url known
    rw [tells_get held] at known
    rw [tells_get kept]
    exact Ledger.get_ages ages known
  · intro code known
    rw [tells_get held] at known
    rw [tells_get kept]
    exact Ledger.get_deleted_ages ages known
  · intro owner
    rcases Ledger.list_ages ages owner with ⟨change, added, listed, aged⟩
    refine ⟨_, added, change, tells_listByOwner held owner, ?_, fun record _ => aged record⟩
    rw [tells_listByOwner kept, listed]
  · intro owner name old current record again known stored reached found same
    rw [tells_listByOwner held, Except.ok.injEq] at known
    rw [tells_listByOwner kept, Except.ok.injEq] at reached
    subst known reached
    exact Ledger.bond_ages ages kept.distinct (List.mem_of_mem_filter stored)
      (List.mem_of_mem_filter found) same
  · intro owner others
    rw [tells_listByOwner held, tells_listByOwner kept, Ledger.list_isolated ages others]

end Backend

namespace Desk

/-- History is never rewritten, and nobody touches the records of another owner. -/
theorem history_is_kept {settings : DeletionSettings} {backend : Backend}
    (initial : backend.Initial) {early late : List Deed} {desk later : Desk}
    {past made : List Ask} (reached : deeds? early ⟨.start settings, backend⟩ = some (desk, past))
    (further : deeds? late desk = some (later, made)) :
    Backend.Recalls made desk.backend later.backend := by
  rcases Backend.genuine_initial initial with ⟨origin, began⟩
  rcases genuine_deeds began reached with ⟨ledger, _, held⟩
  rcases genuine_deeds held further with ⟨after, aged, kept⟩
  exact Backend.recalls_of_ages held kept aged

/-- One of the two codes belongs to nobody. -/
def stocked : List Deed :=
  [.call .roomy ⟨.put ⟨"a"⟩ "http://a" "u1"⟩, .call .roomy ⟨.put ⟨"b"⟩ "http://b" ""⟩]

/-- A worker buries both codes for the owner of one, a put fails, and the store is opened again. -/
def troubled : List Deed :=
  [.work (.accept ⟨"u1", [⟨"a"⟩, ⟨"b"⟩]⟩) none, .work .grant none, .work .deliver none,
    .work (.look 0) none, .work (.listen 0) none, .work (.take 0) none,
    .work (.finish 0 .applied) (some .roomy),
    .call (fun _ _ => some ⟨3, Journal.noSpace⟩) ⟨.put ⟨"c"⟩ "http://c" "u2"⟩, .reopen ⟨1, 1⟩]

theorem troubled_history_is_kept :
    ∃ desk past later made,
      deeds? stocked ⟨.start ⟨1, 1⟩, .journal "links.json" ⟨[], Index.empty⟩⟩ =
        some (desk, past) ∧
      deeds? troubled desk = some (later, made) ∧
      later.backend.tells (.findUrl "http://a") = .ok (some ⟨"a"⟩) ∧
      later.backend.tells (.listByOwner "") = .ok [⟨⟨"b"⟩, "http://b", "", false⟩] := by
  have initial : (Backend.journal "links.json" ⟨[], Index.empty⟩).Initial := ⟨[], rfl⟩
  obtain ⟨desk, past, reached, done, found, listed⟩ : ∃ desk past,
      deeds? stocked ⟨.start ⟨1, 1⟩, .journal "links.json" ⟨[], Index.empty⟩⟩ =
        some (desk, past) ∧
      ((deeds? troubled desk).map fun outcome => outcome.2.map Ask.writer?) =
        some [some "u1", some "u2"] ∧
      desk.backend.tells (.findUrl "http://a") = .ok (some ⟨"a"⟩) ∧
      desk.backend.tells (.listByOwner "") = .ok [⟨⟨"b"⟩, "http://b", "", false⟩] :=
    ⟨_, _, rfl, by decide +kernel, rfl, rfl⟩
  rcases Option.map_eq_some_iff.1 done with ⟨⟨later, made⟩, further, writers⟩
  have kept := history_is_kept initial reached further
  have others : ∀ ask ∈ made, ask.writer? ≠ some "" := by
    intro ask asked writer
    have listed : ask.writer? ∈ made.map Ask.writer? := List.mem_map_of_mem asked
    simp [writers, writer] at listed
  exact ⟨desk, past, later, made, reached, further, kept.found found,
    (kept.isolated "" others).trans listed⟩

end Desk

end ShortLinks
