import ShortLinks.Proofs.Desk
import ShortLinks.Proofs.JournalTorn

/-!
# Tombstones in any order

A request sets the tombstones of its codes that its owner holds, and nothing else. So what a list
of requests leaves behind depends neither on their order nor on how often one comes: a record has
a tombstone if it had one or if some request is its owner's and names its code. A journal appends
a line exactly if there is a tombstone to set.
-/

namespace ShortLinks

set_option autoImplicit false

open Deletion (Request)

def LinkRecord.tombstoned (requests : List Request) (record : LinkRecord) : LinkRecord :=
  { record with
    deleted := record.deleted || requests.any fun request =>
      decide (request.owner = record.owner ∧ record.code ∈ request.codes) }

namespace LinkRecord

variable {requests : List Request} {record : LinkRecord}

theorem tombstoned_deleted :
    (record.tombstoned requests).deleted = true ↔
      record.deleted = true ∨
        ∃ request ∈ requests, request.owner = record.owner ∧ record.code ∈ request.codes := by
  simp [tombstoned]

theorem tombstoned_nil (record : LinkRecord) : record.tombstoned [] = record := by
  simp [tombstoned]

theorem tombstoned_cons (request : Request) (requests : List Request) (record : LinkRecord) :
    record.tombstoned (request :: requests) =
      (Ledger.buried request.codes request.owner record).tombstoned requests := by
  unfold Ledger.buried tombstoned
  by_cases own : record.owner = request.owner ∧ record.code ∈ request.codes
  · simp [own]
  · have other : ¬ (request.owner = record.owner ∧ record.code ∈ request.codes) :=
      fun both => own ⟨both.1.symm, both.2⟩
    simp only [if_neg own, List.any_cons, other, decide_false, Bool.false_or]

/-- Only which requests there are matters, and those without codes do not matter. -/
theorem tombstoned_congr {first second : List Request}
    (same : ∀ request, request.codes ≠ [] → (request ∈ first ↔ request ∈ second)) :
    tombstoned first = tombstoned second := by
  funext record
  have flags : (record.tombstoned first).deleted = (record.tombstoned second).deleted := by
    rw [Bool.eq_iff_iff, tombstoned_deleted, tombstoned_deleted]
    apply or_congr_right
    apply exists_congr
    intro request
    apply and_congr_left
    rintro ⟨_, named⟩
    exact same request (List.ne_nil_of_mem named)
  exact congrArg (fun flag => { record with deleted := flag }) flags

theorem tombstoned_same_iff :
    record.tombstoned requests = record ↔
      ∀ request ∈ requests,
        request.owner = record.owner → record.code ∈ request.codes → record.deleted = true := by
  constructor
  · intro same request asked owned named
    have flag := tombstoned_deleted.2 (.inr ⟨request, asked, owned, named⟩)
    rw [same] at flag
    exact flag
  · intro done
    have flag : (record.tombstoned requests).deleted = record.deleted := by
      rw [Bool.eq_iff_iff, tombstoned_deleted]
      constructor
      · rintro (already | ⟨request, asked, owned, named⟩)
        · exact already
        · exact done request asked owned named
      · exact .inl
    exact congrArg (fun flag => { record with deleted := flag }) flag

end LinkRecord

namespace Ledger

def tombstoned (ledger : Ledger) (requests : List Request) : Ledger :=
  ⟨ledger.records.map (LinkRecord.tombstoned requests)⟩

variable {ledger : Ledger}

theorem honour_tombstoned (ledger : Ledger) (requests : List Request) :
    ledger.honour requests = ledger.tombstoned requests := by
  induction requests generalizing ledger with
  | nil =>
    have each : LinkRecord.tombstoned [] = id := funext LinkRecord.tombstoned_nil
    rw [tombstoned, each, List.map_id]
    rfl
  | cons request requests ih =>
    have first : ledger.honour (request :: requests) =
        (ledger.markDeleted request.codes request.owner).honour requests := rfl
    rw [first, ih, tombstoned, tombstoned, markDeleted_records, List.map_map]
    congr 2
    funext record
    exact (LinkRecord.tombstoned_cons request requests record).symm

theorem tombstoned_bonds (ledger : Ledger) (requests : List Request) :
    (ledger.tombstoned requests).bonds = ledger.bonds := by
  rw [← honour_tombstoned, honour_bonds]

theorem tombstoned_findUrl (ledger : Ledger) (requests : List Request) (url : String) :
    (ledger.tombstoned requests).findUrl url = ledger.findUrl url := by
  rw [find_url_of_bonds, find_url_of_bonds, tombstoned_bonds]

theorem tombstoned_listByOwner (ledger : Ledger) (requests : List Request) (owner : String) :
    (ledger.tombstoned requests).listByOwner owner =
      (ledger.listByOwner owner).map (LinkRecord.tombstoned requests) := by
  simp only [listByOwner, tombstoned, List.filter_map]
  rfl

theorem tombstoned_stats (ledger : Ledger) (requests : List Request) :
    (ledger.tombstoned requests).stats = ledger.stats := by
  simp only [stats, tombstoned, List.length_map, List.map_map]
  rfl

theorem tombstoned_same_iff {requests : List Request} :
    ledger.tombstoned requests = ledger ↔
      ∀ record ∈ ledger.records, ∀ request ∈ requests,
        request.owner = record.owner → record.code ∈ request.codes → record.deleted = true := by
  have lists : ledger.tombstoned requests = ledger ↔
      ledger.records.map (LinkRecord.tombstoned requests) = ledger.records.map id := by
    rw [List.map_id]
    exact ⟨congrArg Ledger.records, congrArg Ledger.mk⟩
  rw [lists, List.map_inj_left]
  apply forall₂_congr
  intro record _
  exact LinkRecord.tombstoned_same_iff

theorem index_injective : Function.Injective index := by
  intro first second same
  have lines : first.records.map (fun record => (record.code, record.entry)) =
      second.records.map (fun record => (record.code, record.entry)) :=
    congrArg (fun index => index.byCode.entries) same
  have apart : Function.Injective fun record : LinkRecord => (record.code, record.entry) := by
    rintro ⟨code, url, owner, deleted⟩ ⟨code', url', owner', deleted'⟩ equal
    simpa [LinkRecord.entry] using equal
  exact congrArg Ledger.mk (List.map_injective_iff.2 apart lines)

end Ledger

namespace Journal

/-- Where every record has its tombstone already nothing is appended. -/
theorem markDeleted_quiet {journal : Journal} {ledger : Ledger}
    (indexed : journal.index = ledger.index) {owner : String} {codes : List ShortCode}
    (done : ∀ record ∈ ledger.records,
      owner = record.owner → record.code ∈ codes → record.deleted = true) :
    markDeleted .roomy owner codes journal = (.ok (), journal) := by
  induction codes with
  | nil => rfl
  | cons code codes ih =>
    have unable : journal.index.canBury code owner = false := by
      rw [indexed, Ledger.index_canBury]
      cases found : ledger.records.find? (·.code == code) with
      | none => rfl
      | some record =>
        have named : record.code = code := by simpa using List.find?_some found
        have flag := done record (List.mem_of_find?_eq_some found)
        by_cases owned : record.owner = owner
        · simp [flag owned.symm (by simp [named])]
        · simp [owned]
    have first : journal.bury .roomy code owner = (.ok (), journal) := by
      rw [bury, unable]
      rfl
    simp only [markDeleted, first]
    exact ih fun record held owned named => done record held owned (List.mem_cons_of_mem code named)

end Journal

namespace Backend

theorem honour_quiet {path : String} {journal : Journal} {ledger : Ledger}
    (indexed : journal.index = ledger.index) {requests : List Request}
    (same : ledger.tombstoned requests = ledger) :
    honour? requests (.journal path journal) = some (.journal path journal) := by
  have done := Ledger.tombstoned_same_iff.1 same
  clear same
  induction requests with
  | nil => rfl
  | cons request requests ih =>
    have first : Journal.markDeleted .roomy request.owner request.codes journal =
        (.ok (), journal) :=
      Journal.markDeleted_quiet indexed fun record held =>
        done record held request List.mem_cons_self
    simp only [honour?, perform, performJournal, first]
    exact ih fun record held other asked => done record held other (List.mem_cons_of_mem _ asked)

theorem honour_grown {path : String} {journal : Journal} {requests : List Request}
    {backend : Backend} (reached : honour? requests (.journal path journal) = some backend) :
    ∃ after, backend = .journal path after ∧ journal.Grown after := by
  induction requests generalizing journal with
  | nil =>
    cases reached
    exact ⟨journal, rfl, journal.grown_refl⟩
  | cons request requests ih =>
    have grown := Journal.grown_markDeleted .roomy request.owner request.codes journal
    simp only [honour?, perform, performJournal] at reached
    cases buried : Journal.markDeleted .roomy request.owner request.codes journal with
    | mk answer between =>
      rw [buried] at reached grown
      cases answer with
      | error cause => cases reached
      | ok done =>
        rcases ih reached with ⟨after, same, later⟩
        exact ⟨after, same, Journal.grown_trans grown later⟩

/-- The log can be opened afterwards unless it was torn and there was a tombstone to set. -/
theorem honour_replayed {path : String} {journal : Journal} {ledger : Ledger}
    (indexed : journal.index = ledger.index)
    (replayed : (replay journal.log).outcome = .ok journal.index) {requests : List Request}
    {after : Journal}
    (reached : honour? requests (.journal path journal) = some (.journal path after))
    (changed : after.index = (ledger.tombstoned requests).index) :
    (replay after.log).outcome =
      if Torn journal.log ∧ ledger.tombstoned requests ≠ ledger then
        .error (.invalidData ("log line " ++
          toString (Text.splitLines journal.log).length ++ ": " ++ "trailing characters"))
      else .ok (ledger.tombstoned requests).index := by
  rcases honour_grown reached with ⟨_, same, written, log, index⟩
  cases same
  rw [← changed]
  cases written with
  | nil =>
    have sameIndex : after.index = journal.index := index
    have unchanged : ledger.tombstoned requests = ledger := by
      apply Ledger.index_injective
      rw [← changed, sameIndex, indexed]
    rw [if_neg fun both => both.2 unchanged, log, sameIndex, List.flatMap_nil, List.append_nil,
      replayed]
  | cons first later =>
    have more : ledger.tombstoned requests ≠ ledger := by
      intro unchanged
      rw [honour_quiet indexed unchanged] at reached
      cases reached
      have nothing := congrArg List.length log
      simp [JournalLine.bytes_eq] at nothing
    by_cases torn : Torn journal.log
    · rw [if_pos ⟨torn, more⟩, log, Journal.torn_log_refused replayed torn]
    · rw [if_neg fun both => torn both.1, log, Journal.blank_log_kept replayed torn, index]

end Backend

end ShortLinks
