import ShortLinks.Proofs.History
import ShortLinks.Proofs.Tombstones

/-!
# Deletions that fail part way

A journal stops at the first tombstone that its disk does not take. What stands before it has
been done, in the log as in the index, and asking again does the rest: no tombstone is written
twice, because only live records have one due. A database passes over the updates that fail.
-/

namespace ShortLinks

set_option autoImplicit false

open Text (Bytes)

namespace Ledger

variable {ledger : Ledger} {owner : String} {code : ShortCode}

def tombstone? (ledger : Ledger) (owner : String) (code : ShortCode) : Option JournalLine :=
  ((ledger.records.find? (·.code == code)).filter fun record =>
    record.owner == owner && !record.deleted).map fun record =>
      .tombstone record.code record.url owner

/-- The tombstones of the owner's live records with the codes, each one once and in the order in
which the codes first come. -/
def dueTombstones (ledger : Ledger) (owner : String) (codes : List ShortCode) :
    List JournalLine :=
  codes.eraseDups.filterMap (ledger.tombstone? owner)

theorem tombstone_code {line : JournalLine} (due : ledger.tombstone? owner code = some line) :
    line.code = code := by
  rcases Option.map_eq_some_iff.1 due with ⟨record, found, rfl⟩
  have named : record.code = code := by
    simpa using List.find?_some (Option.filter_eq_some_iff.1 found).1
  exact named

theorem can_bury_iff (ledger : Ledger) (owner : String) (code : ShortCode) :
    ledger.index.canBury code owner = (ledger.tombstone? owner code).isSome := by
  rw [index_canBury, tombstone?]
  cases ledger.records.find? (·.code == code) with
  | none => rfl
  | some record =>
    simp only [Option.filter_some, Option.isSome_map]
    cases record.owner == owner && !record.deleted <;> rfl

theorem markDeleted_idle (distinct : ledger.Distinct)
    (none : ledger.tombstone? owner code = none) : ledger.markDeleted [code] owner = ledger := by
  have unable : ledger.index.canBury code owner = false := by
    rw [can_bury_iff, none]
    rfl
  apply index_injective
  rw [← index_bury distinct, Index.bury, unable]
  rfl

theorem tombstone_after (ledger : Ledger) (owner : String) (code other : ShortCode) :
    (ledger.markDeleted [code] owner).tombstone? owner other =
      if other = code then none else ledger.tombstone? owner other := by
  have found : (ledger.markDeleted [code] owner).records.find? (·.code == other) =
      (ledger.records.find? (·.code == other)).map (buried [code] owner) := by
    simp only [markDeleted_records, List.find?_map, Function.comp_def, buried_code]
  rw [tombstone?, tombstone?, found]
  cases held : ledger.records.find? (·.code == other) with
  | none => simp
  | some record =>
    have named : record.code = other := by simpa using List.find?_some held
    by_cases same : other = code
    · by_cases owned : record.owner = owner <;> simp [buried, named, same, owned]
    · have kept : buried [code] owner record = record := by
        simp [buried, named, same]
      simp [kept, same]

theorem due_nil (ledger : Ledger) (owner : String) : ledger.dueTombstones owner [] = [] := rfl

/-- The tombstone of the first code goes first, and none is due for this code again. -/
theorem due_cons (ledger : Ledger) (owner : String) (code : ShortCode)
    (codes : List ShortCode) :
    ledger.dueTombstones owner (code :: codes) =
      (ledger.tombstone? owner code).toList ++
        (ledger.markDeleted [code] owner).dueTombstones owner codes := by
  have later : (codes.filter fun other => !other == code).eraseDups.filterMap
      (ledger.tombstone? owner) =
        codes.eraseDups.filterMap ((ledger.markDeleted [code] owner).tombstone? owner) := by
    rw [eraseDups_filter, List.filterMap_filter]
    apply List.filterMap_congr
    intro other _
    rw [tombstone_after]
    by_cases same : other = code <;> simp [same]
  rw [dueTombstones, List.eraseDups_cons, List.filterMap_cons, later]
  cases ledger.tombstone? owner code <;> rfl

theorem markDeleted_append (ledger : Ledger) (first second : List ShortCode) (owner : String) :
    ledger.markDeleted (first ++ second) owner =
      (ledger.markDeleted first owner).markDeleted second owner := by
  induction first generalizing ledger with
  | nil => rw [List.nil_append, markDeleted_nil]
  | cons code first ih =>
    rw [List.cons_append, markDeleted_cons, ih, ← markDeleted_cons]

theorem due_append (ledger : Ledger) (owner : String) (first second : List ShortCode) :
    ledger.dueTombstones owner (first ++ second) =
      ledger.dueTombstones owner first ++
        (ledger.markDeleted first owner).dueTombstones owner second := by
  induction first generalizing ledger with
  | nil => rw [List.nil_append, markDeleted_nil, due_nil, List.nil_append]
  | cons code first ih =>
    rw [List.cons_append, due_cons, due_cons, ih, List.append_assoc, ← markDeleted_cons]

theorem markDeleted_congr (ledger : Ledger) (owner : String) {first second : List ShortCode}
    (same : ∀ code, code ∈ first ↔ code ∈ second) :
    ledger.markDeleted first owner = ledger.markDeleted second owner := by
  simp only [markDeleted, same]

theorem markDeleted_again (ledger : Ledger) (owner : String) (first second : List ShortCode) :
    (ledger.markDeleted first owner).markDeleted (first ++ second) owner =
      ledger.markDeleted (first ++ second) owner := by
  rw [← markDeleted_append]
  apply markDeleted_congr
  simp

theorem due_again (ledger : Ledger) (owner : String) (first second : List ShortCode) :
    (ledger.markDeleted first owner).dueTombstones owner (first ++ second) =
      (ledger.markDeleted first owner).dueTombstones owner second := by
  have twice : (first ++ (first ++ second)).eraseDups = (first ++ second).eraseDups := by
    have gone : (first ++ second).removeAll first = second.removeAll first := by
      simp [List.removeAll, List.filter_append]
    rw [List.eraseDups_append, List.eraseDups_append, gone]
  have front := due_append ledger owner first (first ++ second)
  rw [dueTombstones, twice, ← dueTombstones, due_append] at front
  exact (List.append_cancel_left front).symm

theorem tombstone_of_due {codes : List ShortCode} {line : JournalLine}
    (due : line ∈ ledger.dueTombstones owner codes) :
    ledger.tombstone? owner line.code = some line := by
  rcases List.mem_filterMap.1 due with ⟨code, _, asked⟩
  rw [tombstone_code asked]
  exact asked

theorem due_split {codes : List ShortCode} {front back : List JournalLine} {line : JournalLine}
    (due : ledger.dueTombstones owner codes = front ++ line :: back) :
    ∃ before later, codes = before ++ line.code :: later ∧ line.code ∉ before ∧
      ledger.dueTombstones owner before = front ∧
      (ledger.markDeleted before owner).tombstone? owner line.code = some line := by
  induction codes generalizing ledger front with
  | nil => simp [due_nil] at due
  | cons code codes ih =>
    have further : ∀ rest, front = (ledger.tombstone? owner code).toList ++ rest →
        (ledger.markDeleted [code] owner).dueTombstones owner codes = rest ++ line :: back →
        ∃ before later, code :: codes = before ++ line.code :: later ∧ line.code ∉ before ∧
          ledger.dueTombstones owner before = front ∧
          (ledger.markDeleted before owner).tombstone? owner line.code = some line := by
      intro rest split behind
      rcases ih behind with ⟨before, later, rfl, first, set, asked⟩
      have other : line.code ≠ code := by
        intro same
        have listed : line ∈ (ledger.markDeleted [code] owner).dueTombstones owner
            (before ++ line.code :: later) := by
          rw [behind]
          simp
        have asked := tombstone_of_due listed
        rw [tombstone_after, if_pos same] at asked
        cases asked
      refine ⟨code :: before, later, rfl, by simp [first, other], ?_, ?_⟩
      · rw [due_cons, set, split]
      · rw [markDeleted_cons]
        exact asked
    rw [due_cons] at due
    cases own : ledger.tombstone? owner code with
    | none =>
      rw [own] at due
      exact further front (by rw [own]; rfl) due
    | some tombstone =>
      rw [own] at due
      cases front with
      | cons next front =>
        rcases List.cons.inj due with ⟨rfl, behind⟩
        exact further front (by rw [own]; rfl) behind
      | nil =>
        rcases List.cons.inj due with ⟨rfl, _⟩
        have named := tombstone_code own
        refine ⟨[], codes, by rw [named]; rfl, by simp, rfl, ?_⟩
        rw [markDeleted_nil, named]
        exact own

end Ledger

/-- The disk takes the lines one after the other. -/
def Disk.Takes (disk : Disk) : Bytes → List JournalLine → Prop
  | _, [] => True
  | log, line :: lines =>
      disk log.length line.bytes.length = none ∧ Disk.Takes disk (log ++ line.bytes) lines

namespace Journal

variable {journal : Journal} {ledger : Ledger} {disk : Disk} {owner : String}

def behind (journal : Journal) (lines : List JournalLine) (ledger : Ledger) : Journal :=
  ⟨journal.log ++ lines.flatMap JournalLine.bytes, ledger.index⟩

theorem bury_idle (indexed : journal.index = ledger.index) {code : ShortCode}
    (none : ledger.tombstone? owner code = none) :
    journal.bury disk code owner = (.ok (), journal) := by
  have unable : journal.index.canBury code owner = false := by
    rw [indexed, Ledger.can_bury_iff, none]
    rfl
  rw [bury, unable]
  rfl

theorem url_of_due (indexed : journal.index = ledger.index) {code : ShortCode}
    {line : JournalLine} (due : ledger.tombstone? owner code = some line) :
    JournalLine.tombstone code (journal.urlOf code) owner = line := by
  rcases Option.map_eq_some_iff.1 due with ⟨record, found, rfl⟩
  have held := (Option.filter_eq_some_iff.1 found).1
  have named : record.code = code := by simpa using List.find?_some held
  rw [urlOf, indexed, Ledger.index_find_code, held, named]
  rfl

/-- A tombstone that is due goes to the log and to the index, or to neither. -/
theorem bury_due (indexed : journal.index = ledger.index) (distinct : ledger.Distinct)
    {code : ShortCode} {line : JournalLine} (due : ledger.tombstone? owner code = some line) :
    journal.bury disk code owner =
      match disk journal.log.length line.bytes.length with
      | none => (.ok (), journal.behind [line] (ledger.markDeleted [code] owner))
      | some broken => (.error (appendError broken.cause), journal) := by
  have able : journal.index.canBury code owner = true := by
    rw [indexed, Ledger.can_bury_iff, due]
    rfl
  rw [bury, if_pos able, url_of_due indexed due, append_eq]
  cases disk journal.log.length line.bytes.length with
  | none => simp [behind, indexed, Ledger.index_bury distinct]
  | some broken => rfl

/-- If the disk takes every tombstone that is due, all of them are set. -/
theorem markDeleted_whole (indexed : journal.index = ledger.index) (distinct : ledger.Distinct)
    {codes : List ShortCode}
    (takes : disk.Takes journal.log (ledger.dueTombstones owner codes)) :
    markDeleted disk owner codes journal =
      (.ok (), journal.behind (ledger.dueTombstones owner codes)
        (ledger.markDeleted codes owner)) := by
  induction codes generalizing journal ledger with
  | nil =>
    rw [Ledger.markDeleted_nil, Ledger.due_nil, behind, ← indexed]
    simp [markDeleted]
  | cons code codes ih =>
    rw [Ledger.due_cons] at takes ⊢
    rw [Ledger.markDeleted_cons ledger code codes owner]
    cases due : ledger.tombstone? owner code with
    | none =>
      rw [due, Ledger.markDeleted_idle distinct due] at takes
      rw [Ledger.markDeleted_idle distinct due]
      simp only [markDeleted, bury_idle indexed due]
      exact ih indexed distinct takes
    | some line =>
      rw [due] at takes
      have between := Ledger.markDeleted_distinct distinct [code] owner
      have first : journal.bury disk code owner =
          (.ok (), journal.behind [line] (ledger.markDeleted [code] owner)) := by
        rw [bury_due indexed distinct due, takes.1]
      have indexedNext : (journal.behind [line] (ledger.markDeleted [code] owner)).index =
          (ledger.markDeleted [code] owner).index := rfl
      have later := ih indexedNext between (by simpa [behind] using takes.2)
      simp only [markDeleted, first, later]
      simp [behind]

theorem markDeleted_append_ok {codes : List ShortCode} {next : Journal}
    (done : markDeleted disk owner codes journal = (.ok (), next)) (later : List ShortCode) :
    markDeleted disk owner (codes ++ later) journal = markDeleted disk owner later next := by
  induction codes generalizing journal with
  | nil =>
    cases done
    rfl
  | cons code codes ih =>
    rw [List.cons_append]
    cases buried : journal.bury disk code owner with
    | mk answer between =>
      simp only [markDeleted, buried] at done ⊢
      cases answer with
      | error error => cases done
      | ok _ => exact ih done

/-- At the first tombstone that the disk does not take the codes before it have been done. -/
theorem markDeleted_stops (indexed : journal.index = ledger.index) (distinct : ledger.Distinct)
    {before later : List ShortCode} {line : JournalLine}
    (due : (ledger.markDeleted before owner).tombstone? owner line.code = some line)
    (takes : disk.Takes journal.log (ledger.dueTombstones owner before))
    {broken : BrokenWrite}
    (refused : disk (journal.behind (ledger.dueTombstones owner before) ledger).log.length
      line.bytes.length = some broken) :
    markDeleted disk owner (before ++ line.code :: later) journal =
      (.error (appendError broken.cause), journal.behind (ledger.dueTombstones owner before)
        (ledger.markDeleted before owner)) := by
  have distinctNext := Ledger.markDeleted_distinct distinct before owner
  rw [markDeleted_append_ok (markDeleted_whole indexed distinct takes), markDeleted,
    bury_due rfl distinctNext due]
  simp only [behind] at refused ⊢
  rw [refused]

/-- The tombstones that are due lead the index where burying the codes leads the ledger. -/
theorem due_applied (distinct : ledger.Distinct) (owner : String) (codes : List ShortCode) :
    Replay.applyAll ledger.index (ledger.dueTombstones owner codes) =
      (ledger.markDeleted codes owner).index := by
  induction codes generalizing ledger with
  | nil =>
    rw [Ledger.markDeleted_nil]
    rfl
  | cons code codes ih =>
    have later := ih (Ledger.markDeleted_distinct distinct [code] owner)
    rw [Ledger.due_cons, Replay.apply_all_append, Ledger.markDeleted_cons ledger code codes owner]
    cases due : ledger.tombstone? owner code with
    | none =>
      rw [Ledger.markDeleted_idle distinct due] at later ⊢
      exact later
    | some line =>
      have first : Replay.applyAll ledger.index [line] =
          (ledger.markDeleted [code] owner).index := by
        rcases Option.map_eq_some_iff.1 due with ⟨record, found, rfl⟩
        have named := Ledger.tombstone_code due
        rw [← Ledger.index_bury distinct, ← named]
        rfl
      rw [Option.toList_some, first]
      exact later

/-- What a deletion leaves that stopped at a tombstone: the codes before the one of the tombstone
were done, and asking again does the others. -/
structure Stopped (journal : Journal) (ledger : Ledger) (owner : String) (codes : List ShortCode)
    (front : List JournalLine) (line : JournalLine) (back : List JournalLine)
    (after : Journal) : Prop where
  done : ∃ before later, codes = before ++ line.code :: later ∧ line.code ∉ before ∧
    ledger.dueTombstones owner before = front ∧
    after.index = (ledger.markDeleted before owner).index
  log : after.log = journal.log ++ front.flatMap JournalLine.bytes
  alike : after.index = Replay.applyAll journal.index front
  faithful : journal.Faithful → after.Faithful
  again : ∀ disk : Disk, disk.Takes after.log (line :: back) →
    markDeleted disk owner codes after = markDeleted .roomy owner codes journal

/-- What a deletion does on a disk that may break off. -/
structure Deletes (journal : Journal) (ledger : Ledger) (owner : String)
    (codes : List ShortCode) (disk : Disk) : Prop where
  either : disk.Takes journal.log (ledger.dueTombstones owner codes) ∨
    ∃ front line back, ledger.dueTombstones owner codes = front ++ line :: back ∧
      disk.Takes journal.log front ∧
      disk (journal.log ++ front.flatMap JournalLine.bytes).length line.bytes.length ≠ none
  whole : disk.Takes journal.log (ledger.dueTombstones owner codes) →
    markDeleted disk owner codes journal =
      (.ok (), journal.behind (ledger.dueTombstones owner codes) (ledger.markDeleted codes owner))
  stopped : ∀ front line back broken, ledger.dueTombstones owner codes = front ++ line :: back →
    disk.Takes journal.log front →
    disk (journal.log ++ front.flatMap JournalLine.bytes).length line.bytes.length = some broken →
    ∃ after, markDeleted disk owner codes journal = (.error (appendError broken.cause), after) ∧
      Stopped journal ledger owner codes front line back after

theorem takes_or_refuses (disk : Disk) (log : Bytes) (lines : List JournalLine) :
    disk.Takes log lines ∨ ∃ front line back, lines = front ++ line :: back ∧
      disk.Takes log front ∧
      disk (log ++ front.flatMap JournalLine.bytes).length line.bytes.length ≠ none := by
  induction lines generalizing log with
  | nil => exact .inl trivial
  | cons line lines ih =>
    by_cases refused : disk log.length line.bytes.length = none
    · rcases ih (log ++ line.bytes) with rest | ⟨front, next, back, rfl, taken, stopped⟩
      · exact .inl ⟨refused, rest⟩
      · refine .inr ⟨line :: front, next, back, rfl, ⟨refused, taken⟩, ?_⟩
        simpa using stopped
    · exact .inr ⟨[], line, lines, rfl, trivial, by simpa using refused⟩

theorem takes_roomy (log : Bytes) (lines : List JournalLine) : Disk.roomy.Takes log lines := by
  induction lines generalizing log with
  | nil => exact trivial
  | cons line lines ih => exact ⟨rfl, ih _⟩

theorem deletes (indexed : journal.index = ledger.index) (distinct : ledger.Distinct)
    (owner : String) (codes : List ShortCode) (disk : Disk) :
    Deletes journal ledger owner codes disk := by
  refine ⟨takes_or_refuses disk journal.log _, markDeleted_whole indexed distinct, ?_⟩
  intro front line back broken due takes refused
  rcases Ledger.due_split due with ⟨before, later, rfl, first, rfl, asked⟩
  have distinctNext := Ledger.markDeleted_distinct distinct before owner
  have alike := due_applied distinct owner before
  refine ⟨_, markDeleted_stops indexed distinct asked takes refused, ?_, rfl, ?_, ?_, ?_⟩
  · exact ⟨before, later, rfl, first, rfl, rfl⟩
  · rw [indexed, alike]
    rfl
  · intro faithful
    refine faithful_grown faithful ⟨ledger.dueTombstones owner before, rfl, ?_⟩
    rw [indexed, alike]
    rfl
  · intro again takesRest
    have rest : (ledger.markDeleted before owner).dueTombstones owner
        (before ++ line.code :: later) = line :: back := by
      rw [Ledger.due_append] at due
      rw [Ledger.due_again]
      exact List.append_cancel_left due
    rw [← rest] at takesRest
    have indexedNext : (journal.behind (ledger.dueTombstones owner before)
        (ledger.markDeleted before owner)).index = (ledger.markDeleted before owner).index := rfl
    rw [markDeleted_whole indexedNext distinctNext takesRest,
      markDeleted_whole indexed distinct (takes_roomy _ _), Ledger.markDeleted_again, rest, due]
    simp [behind]

end Journal

namespace Ledger

variable (ledger : Ledger) (inserts updates : List ShortCode) (owner : String)

def owns (code : ShortCode) : Bool :=
  ledger.records.any fun record => record.code == code && record.owner == owner

def failures (codes : List ShortCode) : List Notice :=
  (codes.filter fun code => updates.contains code && ledger.owns owner code).map fun code =>
    .markFailed code owner StatementError.blocked.message

theorem owns_after (codes : List ShortCode) (code : ShortCode) :
    (ledger.markDeleted codes owner).owns owner code = ledger.owns owner code := by
  simp only [owns, markDeleted_records, List.any_map, Function.comp_def, buried_code,
    buried_owner]

theorem markDeleted_unowned {ledger : Ledger} {owner : String} {code : ShortCode}
    (unowned : ledger.owns owner code = false) : ledger.markDeleted [code] owner = ledger := by
  have each : ∀ record ∈ ledger.records, buried [code] owner record = record := by
    intro record held
    have other := List.any_eq_false.1 unowned record held
    apply if_neg
    simpa [and_comm] using other
  exact congrArg Ledger.mk ((List.map_congr_left each).trans (List.map_id _))

/-- An update fails if it is hindered and there is a row that it concerns. -/
theorem bury_exact (code : ShortCode) :
    (ledger.tableUnder inserts updates).bury code owner =
      if ledger.owns owner code && updates.contains code then .error .blocked
      else .ok ((ledger.markDeleted [code] owner).tableUnder inserts updates) := by
  have concerned : (ledger.tableUnder inserts updates).rows.any
      (fun row => row.hasCode code && row.hasOwner owner) = ledger.owns owner code := by
    simp [tableUnder, table, owns, List.any_map, Function.comp_def, Row.hasCode_ofRecord,
      Row.hasOwner_ofRecord]
  simp only [LinkTable.bury, concerned]
  simp only [tableUnder, table, List.map_map, markDeleted_records, Function.comp_def, row_buried]

theorem buryAll_exact (codes : List ShortCode) :
    Database.buryAll owner codes (some (ledger.tableUnder inserts updates)) =
      (some ((ledger.markDeleted (codes.filter fun code => !updates.contains code)
          owner).tableUnder inserts updates), ledger.failures updates owner codes) := by
  induction codes generalizing ledger with
  | nil =>
    rw [List.filter_nil, markDeleted_nil]
    rfl
  | cons code codes ih =>
    have same : ∀ buried : List ShortCode,
        (ledger.markDeleted buried owner).failures updates owner codes =
          ledger.failures updates owner codes := by
      intro buried
      simp only [failures, owns_after]
    simp only [Database.buryAll, bury_exact]
    cases hindered : updates.contains code with
    | false =>
      have kept : (code :: codes).filter (fun code => !updates.contains code) =
          code :: codes.filter fun code => !updates.contains code :=
        List.filter_cons_of_pos (by simp only [hindered, Bool.not_false])
      have noted : ledger.failures updates owner (code :: codes) =
          ledger.failures updates owner codes := by
        simp only [failures, List.filter_cons, hindered, Bool.false_and, Bool.false_eq_true,
          if_false]
      rw [kept, noted, markDeleted_cons ledger code (codes.filter _) owner]
      simp only [Bool.and_false, Bool.false_eq_true, if_false, ih, same, List.nil_append]
    | true =>
      have dropped : (code :: codes).filter (fun code => !updates.contains code) =
          codes.filter fun code => !updates.contains code :=
        List.filter_cons_of_neg (by simp only [hindered, Bool.not_true, Bool.false_eq_true,
          not_false_iff])
      rw [dropped]
      cases owned : ledger.owns owner code with
      | true =>
        simp only [Bool.and_true, if_true, ih, failures, List.filter_cons, hindered, owned,
          List.map_cons, List.singleton_append]
      | false =>
        simp only [Bool.and_true, Bool.false_eq_true, if_false, markDeleted_unowned owned, ih,
          failures, List.filter_cons, hindered, owned, Bool.and_false, List.nil_append]

theorem markDeleted_exact (connected : Bool) (codes : List ShortCode) :
    (ledger.databaseUnder inserts updates connected).markDeleted codes owner =
      if connected then
        (.ok (), (ledger.markDeleted (codes.filter fun code => !updates.contains code)
          owner).databaseUnder inserts updates true, ledger.failures updates owner codes)
      else
        (.error Database.closedError, ledger.databaseUnder inserts updates false, []) := by
  cases connected with
  | false => rfl
  | true =>
    simp only [Database.markDeleted, databaseUnder, buryAll_exact]
    rfl

end Ledger

namespace Backend

/-- What a deletion does that fails in part: on a journal, whatever the disk takes, and on a
database, whichever updates fail. -/
def DeletesPartly (backend : Backend) (ledger : Ledger) (owner : String)
    (codes : List ShortCode) : Prop :=
  match backend with
  | .memory index =>
      ∀ disk, (Backend.memory index).perform disk (.markDeleted codes owner) =
        ⟨.ok (), .memory (ledger.markDeleted codes owner).index, []⟩
  | .journal path held =>
      ∀ disk, (Backend.journal path held).perform disk (.markDeleted codes owner) =
          ⟨(Journal.markDeleted disk owner codes held).1,
            .journal path (Journal.markDeleted disk owner codes held).2, []⟩ ∧
        held.Deletes ledger owner codes disk
  | .database held =>
      ∀ inserts updates, ∃ hindered, hinder? inserts updates (.database held) = some hindered ∧
        ∀ disk, hindered.perform disk (.markDeleted codes owner) =
          if held.connected then
            ⟨.ok (), .database ((ledger.markDeleted
                (codes.filter fun code => !updates.contains code) owner).databaseUnder
                  inserts updates true), ledger.failures updates owner codes⟩
          else ⟨.error Database.closedError, hindered, []⟩

theorem deletes_partly {backend : Backend} {ledger : Ledger} (stores : backend.Stores ledger)
    (distinct : ledger.Distinct) (owner : String) (codes : List ShortCode) :
    backend.DeletesPartly ledger owner codes := by
  cases backend with
  | memory index =>
    obtain rfl : index = ledger.index := stores
    intro disk
    simp only [perform, performMemory, Ledger.index_buryAll owner codes distinct]
  | journal path journal =>
    intro disk
    exact ⟨rfl, Journal.deletes stores distinct owner codes disk⟩
  | database held =>
    rcases stores with ⟨before, behind, connected, rfl⟩
    intro inserts updates
    refine ⟨.database (ledger.databaseUnder inserts updates connected), rfl, ?_⟩
    intro disk
    simp only [perform, performDatabase, Ledger.markDeleted_exact]
    cases connected <;> rfl

/-- Whatever a store has been through, a deletion that fails in part is as good as its policy
allows. -/
theorem deletions_fail_in_part {settings : DeletionSettings} {first : Backend}
    (initial : first.Initial) {deeds : List Deed} {desk : Desk} {made : List Ask}
    (reached : Desk.deeds? deeds ⟨.start settings, first⟩ = some (desk, made)) (owner : String)
    (codes : List ShortCode) :
    ∃ ledger, desk.backend.Genuine ledger ∧ desk.backend.DeletesPartly ledger owner codes := by
  rcases genuine_initial initial with ⟨origin, began⟩
  rcases Desk.genuine_deeds began reached with ⟨ledger, _, genuine⟩
  exact ⟨ledger, genuine, deletes_partly genuine.stores genuine.distinct owner codes⟩

def supplied : List Deed :=
  [.call .roomy ⟨.put ⟨"a"⟩ "http://a" "u1"⟩, .call .roomy ⟨.put ⟨"b"⟩ "http://b" ""⟩,
    .call .roomy ⟨.put ⟨"c"⟩ "http://c" "u1"⟩]

/-- Two tombstones are due for these codes. -/
def unwanted : List ShortCode := [⟨"x"⟩, ⟨"a"⟩, ⟨"b"⟩, ⟨"a"⟩, ⟨"c"⟩, ⟨"c"⟩]

/-- The disk has room for one of the two. -/
theorem deletion_on_full_disk_fails_in_part :
    ∃ desk made held after,
      Desk.deeds? supplied ⟨.start ⟨1, 1⟩, .journal "links.json" ⟨[], Index.empty⟩⟩ =
        some (desk, made) ∧
      desk.backend = .journal "links.json" held ∧
      Journal.markDeleted (.limited 260) "u1" unwanted held =
        (.error (Journal.appendError "File too large (os error 27)"), after) ∧
      after.index.get ⟨"a"⟩ = .error (.deleted "a") ∧
      after.index.get ⟨"c"⟩ = .ok (some "http://c") ∧
      Journal.markDeleted .roomy "u1" unwanted after =
        Journal.markDeleted .roomy "u1" unwanted held := by
  have initial : (Backend.journal "links.json" ⟨[], Index.empty⟩).Initial := ⟨[], rfl⟩
  let stored : Ledger := ⟨[⟨⟨"a"⟩, "http://a", "u1", false⟩, ⟨⟨"b"⟩, "http://b", "", false⟩,
    ⟨⟨"c"⟩, "http://c", "u1", false⟩]⟩
  obtain ⟨desk, made, held, reached, journal, indexed, size⟩ : ∃ desk made held,
      Desk.deeds? supplied ⟨.start ⟨1, 1⟩, .journal "links.json" ⟨[], Index.empty⟩⟩ =
        some (desk, made) ∧
      desk.backend = .journal "links.json" held ∧ held.index = stored.index ∧
      held.log.length = 162 :=
    ⟨_, _, _, rfl, rfl, rfl, by decide +kernel⟩
  rcases deletions_fail_in_part initial reached "u1" unwanted with ⟨ledger, genuine, partly⟩
  have stores := genuine.stores
  rw [journal] at stores partly
  obtain rfl : stored = ledger := Ledger.index_injective (indexed.symm.trans stores)
  have first : (JournalLine.tombstone ⟨"a"⟩ "http://a" "u1").bytes.length = 77 := by
    decide +kernel
  have second : (JournalLine.tombstone ⟨"c"⟩ "http://c" "u1").bytes.length = 77 := by
    decide +kernel
  have due : stored.dueTombstones "u1" unwanted =
      [.tombstone ⟨"a"⟩ "http://a" "u1"] ++ .tombstone ⟨"c"⟩ "http://c" "u1" :: [] := by
    decide +kernel
  have full : Disk.limited 260 (held.log ++ [JournalLine.tombstone ⟨"a"⟩ "http://a" "u1"].flatMap
      JournalLine.bytes).length (JournalLine.tombstone ⟨"c"⟩ "http://c" "u1").bytes.length =
        some ⟨21, "File too large (os error 27)"⟩ := by
    simp [size, first, second, Disk.limited]
  rcases (partly (.limited 260)).2.stopped _ _ _ _ due ⟨by rw [size, first]; rfl, trivial⟩ full with
    ⟨after, stopped, left⟩
  have alike := left.alike
  rw [indexed] at alike
  refine ⟨desk, made, held, after, reached, journal, stopped, ?_, ?_, ?_⟩
  · rw [alike]
    rfl
  · rw [alike]
    rfl
  · exact left.again .roomy (Journal.takes_roomy _ _)

end Backend

end ShortLinks
