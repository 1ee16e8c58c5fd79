import ShortLinks.Proofs.IndexTables
import ShortLinks.Proofs.JournalReplay
import Mathlib.Data.List.Destutter

/-!
# What a process goes through

A call works entry by entry, or code by code, and each of these changes the index at most once:
by one line that is appended to the log first. So the indexes that a process has one after the
other are those that the lines of its log lead to, line by line.
-/

namespace ShortLinks

set_option autoImplicit false

namespace Journal

/-- The journals after each entry of a batch, up to the first entry that fails. -/
def putStages (disk : Disk) (owner : String) : List BatchEntry → Journal → List Journal
  | [], _ => []
  | entry :: entries, journal =>
      match journal.put disk entry.code entry.url owner with
      | (.error _, same) => [same]
      | (.ok _, next) => next :: putStages disk owner entries next

/-- The journals after each code, up to the first tombstone that cannot be appended. -/
def buryStages (disk : Disk) (owner : String) : List ShortCode → Journal → List Journal
  | [], _ => []
  | code :: codes, journal =>
      match journal.bury disk code owner with
      | (.error _, same) => [same]
      | (.ok _, next) => next :: buryStages disk owner codes next

def stages {α : Type} (disk : Disk) (journal : Journal) : StoreCall α → List Journal
  | .put code url owner => [(journal.put disk code url owner).2]
  | .putBatch entries owner => putStages disk owner entries journal
  | .markDeleted codes owner => buryStages disk owner codes journal
  | _ => []

def visited : List (Disk × Ask) → Journal → List Journal
  | [], _ => []
  | (disk, ask) :: calls, journal =>
      stages disk journal ask.call ++
        visited calls (Backend.performJournal disk journal ask.call).2

/-- The indexes that the process has, each of them once. -/
def passage (calls : List (Disk × Ask)) (journal : Journal) : List Index :=
  ((journal :: visited calls journal).map Journal.index).destutter (· ≠ ·)

/-- Nothing has changed, or the line of one change was appended and the change was made. -/
inductive Stage (journal : Journal) : Journal → Prop
  | same : Stage journal journal
  | stored {code : ShortCode} {url : String} (free : journal.index.refusal? code url = none)
      (owner : String) :
      Stage journal ⟨journal.log ++ (JournalLine.live code url owner).bytes,
        journal.index.store code url owner⟩
  | buried {code : ShortCode} {owner : String} (able : journal.index.canBury code owner = true) :
      Stage journal ⟨journal.log ++ (JournalLine.tombstone code (journal.urlOf code) owner).bytes,
        journal.index.bury code owner⟩

/-- The stages lead from one journal to the other. -/
inductive Path : Journal → List Journal → Journal → Prop
  | nil (journal : Journal) : Path journal [] journal
  | cons {journal next last : Journal} {rest : List Journal} (first : journal.Stage next)
      (later : Path next rest last) : Path journal (next :: rest) last

theorem Path.append {journal between last : Journal} {first second : List Journal}
    (before : Path journal first between) (after : Path between second last) :
    Path journal (first ++ second) last := by
  induction before with
  | nil journal => exact after
  | cons stage later induction => exact .cons stage (induction after)

theorem stage_put (disk : Disk) (journal : Journal) (code : ShortCode) (url owner : String) :
    journal.Stage (journal.put disk code url owner).2 := by
  unfold put
  cases free : journal.index.refusal? code url with
  | some error => exact .same
  | none =>
    rcases append_cases disk journal (.live code url owner) with ⟨cause, failed⟩ | stored
    · rw [failed]
      exact .same
    · rw [stored]
      exact .stored free owner

theorem stage_bury (disk : Disk) (journal : Journal) (code : ShortCode) (owner : String) :
    journal.Stage (journal.bury disk code owner).2 := by
  unfold bury
  by_cases able : journal.index.canBury code owner = true
  · rw [if_pos able]
    rcases append_cases disk journal (.tombstone code (journal.urlOf code) owner) with
      ⟨cause, failed⟩ | stored
    · rw [failed]
      exact .same
    · rw [stored]
      exact .buried able
  · rw [if_neg able]
    exact .same

/-- What was appended is one line, and it leads to another index. -/
theorem Stage.by_line {journal next : Journal} (stage : journal.Stage next) :
    next = journal ∨ ∃ line : JournalLine,
      (Replay.apply journal.index line).outcome ≠ journal.index ∧
      next = ⟨journal.log ++ line.bytes, (Replay.apply journal.index line).outcome⟩ := by
  cases stage with
  | same => exact .inl rfl
  | @stored code url free owner =>
    refine .inr ⟨.live code url owner, ?_, ?_⟩
    · rw [Replay.apply_live free owner]
      exact Index.store_changes free owner
    · rw [Replay.apply_live free owner]
  | @buried code owner able =>
    exact .inr ⟨.tombstone code (journal.urlOf code) owner, Index.bury_changes able, rfl⟩

theorem path_putLeading (disk : Disk) (owner : String) (entries : List BatchEntry)
    (journal : Journal) :
    Path journal (putStages disk owner entries journal)
      (putLeading disk owner entries journal).2 := by
  induction entries generalizing journal with
  | nil => exact .nil journal
  | cons entry entries induction =>
    have first := stage_put disk journal entry.code entry.url owner
    unfold putStages putLeading
    cases stored : journal.put disk entry.code entry.url owner with
    | mk answer next =>
      rw [stored] at first
      cases answer with
      | error error => exact .cons first (.nil next)
      | ok done => exact .cons first (induction next)

theorem path_markDeleted (disk : Disk) (owner : String) (codes : List ShortCode)
    (journal : Journal) :
    Path journal (buryStages disk owner codes journal)
      (markDeleted disk owner codes journal).2 := by
  induction codes generalizing journal with
  | nil => exact .nil journal
  | cons code codes induction =>
    have first := stage_bury disk journal code owner
    unfold buryStages markDeleted
    cases buried : journal.bury disk code owner with
    | mk answer next =>
      rw [buried] at first
      cases answer with
      | error error => exact .cons first (.nil next)
      | ok done => exact .cons first (induction next)

theorem path_perform {α : Type} (disk : Disk) (journal : Journal) (call : StoreCall α) :
    Path journal (stages disk journal call) (Backend.performJournal disk journal call).2 := by
  cases call with
  | put code url owner => exact .cons (stage_put disk journal code url owner) (.nil _)
  | putBatch entries owner => exact path_putLeading disk owner entries journal
  | markDeleted codes owner => exact path_markDeleted disk owner codes journal
  | get | findUrl | listByOwner | stats | probe | shutdown => exact .nil journal

theorem path_session (calls : List (Disk × Ask)) (journal : Journal) :
    Path journal (visited calls journal) (session calls journal).2 := by
  induction calls generalizing journal with
  | nil => exact .nil journal
  | cons call calls induction =>
    rcases call with ⟨disk, ask⟩
    exact (path_perform disk journal ask.call).append (induction _)

/-- Each line of what was appended led from one index to the next. -/
theorem passage_of_path {journal last : Journal} {rest : List Journal}
    (path : Path journal rest last) :
    ∃ written : List JournalLine, last.log = journal.log ++ written.flatMap JournalLine.bytes ∧
      ((journal :: rest).map Journal.index).destutter (· ≠ ·) =
        written.scanl (fun index line => (Replay.apply index line).outcome) journal.index := by
  induction path with
  | nil journal => exact ⟨[], by simp, rfl⟩
  | cons first later induction =>
    rcases induction with ⟨written, log, indexes⟩
    simp only [List.map_cons, List.destutter_cons'] at indexes ⊢
    rcases first.by_line with rfl | ⟨line, changed, rfl⟩
    · exact ⟨written, log, by rw [List.destutter'_cons_neg _ (by simp), indexes]⟩
    · refine ⟨line :: written, ?_, ?_⟩
      · rw [log, List.flatMap_cons, List.append_assoc]
      · rw [List.destutter'_cons_pos _ changed.symm, indexes, List.scanl_cons]

/-- A process that began with an empty log has had, after so many changes, the index that as many
lines of its log lead to. -/
theorem passage_of_lines (calls : List (Disk × Ask)) :
    ∃ written : List JournalLine,
      (session calls ⟨[], Index.empty⟩).2.log = written.flatMap JournalLine.bytes ∧
      ∀ count ≤ written.length, (passage calls ⟨[], Index.empty⟩)[count]? =
        some (Replay.applyAll Index.empty (written.take count)) := by
  rcases passage_of_path (path_session calls ⟨[], Index.empty⟩) with ⟨written, log, indexes⟩
  refine ⟨written, log, ?_⟩
  intro count within
  rw [passage, indexes, List.getElem?_scanl, if_pos within]
  rfl

end Journal

end ShortLinks
