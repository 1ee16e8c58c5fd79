import ShortLinks.Proofs.JournalLine
import ShortLinks.Proofs.Session

/-!
# The log and the index never drift apart

Whatever a call does to a journal, it appends whole lines to the log and leaves the index
that these lines lead to, also where the disk refuses a line part way. So a log that ended
on a line boundary goes on being replayed into the current index, and a journal may be
closed and opened again between any two calls without an answer changing.
-/

namespace ShortLinks

set_option autoImplicit false

open Text (Closed splitLines)

namespace Replay

/-- The index after lines that were read. -/
def applyAll (index : Index) (read : List JournalLine) : Index :=
  read.foldl (fun current line => (apply current line).outcome) index

theorem apply_all_append (index : Index) (first second : List JournalLine) :
    applyAll index (first ++ second) = applyAll (applyAll index first) second :=
  List.foldl_append

theorem apply_live {index : Index} {code : ShortCode} {url : String}
    (free : index.refusal? code url = none) (owner : String) :
    (apply index (.live code url owner)).outcome = index.store code url owner := by
  simp only [apply, JournalLine.live, Bool.false_eq_true, if_false, Index.insert, free]

theorem lines_append {number : Nat} {index between : Index} {first : List Text.Bytes}
    (replayed : (lines number index first).outcome = .ok between) (second : List Text.Bytes) :
    (lines number index (first ++ second)).outcome =
      (lines (number + first.length) between second).outcome := by
  induction first generalizing number index with
  | nil =>
    obtain rfl : index = between := Except.ok.inj replayed
    rfl
  | cons line first ih =>
    have count : number + (line :: first).length = number + 1 + first.length := by
      rw [List.length_cons]
      omega
    rw [count, List.cons_append]
    cases read : JournalLine.read line with
    | error flaw =>
      simp only [lines, read] at replayed
      cases replayed
    | ok found =>
      cases found with
      | none =>
        simp only [lines, read] at replayed ⊢
        exact ih replayed
      | some written =>
        simp only [lines, read] at replayed ⊢
        exact ih replayed

theorem lines_written (number : Nat) (index : Index) (written : List JournalLine) :
    (lines number index (written.map JournalLine.body)).outcome =
      .ok (applyAll index written) := by
  induction written generalizing number index with
  | nil => rfl
  | cons line written ih =>
    simp only [List.map_cons, lines, line.read_body]
    exact ih (number + 1) (apply index line).outcome

end Replay

theorem split_written (written : List JournalLine) :
    splitLines (written.flatMap JournalLine.bytes) = written.map JournalLine.body := by
  induction written with
  | nil => rfl
  | cons line written ih =>
    rw [List.flatMap_cons, Text.split_lines_append line.bytes_closed, line.split_bytes, ih]
    rfl

theorem written_closed (written : List JournalLine) :
    Closed (written.flatMap JournalLine.bytes) := by
  induction written with
  | nil => exact .inl rfl
  | cons line written ih =>
    rw [List.flatMap_cons]
    exact Text.closed_append line.bytes_closed ih

namespace Journal

/-- The lines were appended, and the index is what they lead to. -/
structure GrownBy (written : List JournalLine) (journal next : Journal) : Prop where
  log : next.log = journal.log ++ written.flatMap JournalLine.bytes
  index : next.index = Replay.applyAll journal.index written

def Grown (journal next : Journal) : Prop := ∃ written, GrownBy written journal next

theorem grown_refl (journal : Journal) : journal.Grown journal :=
  ⟨[], by simp, rfl⟩

theorem grown_trans {first second third : Journal} (before : first.Grown second)
    (after : second.Grown third) : first.Grown third := by
  rcases before with ⟨written, log, index⟩
  rcases after with ⟨later, laterLog, laterIndex⟩
  refine ⟨written ++ later, ?_, ?_⟩
  · rw [laterLog, log, List.flatMap_append, List.append_assoc]
  · rw [laterIndex, index, Replay.apply_all_append]

theorem append_eq (disk : Disk) (journal : Journal) (line : JournalLine) :
    journal.append disk line =
      match disk journal.log.length line.bytes.length with
      | none => (.ok (), ⟨journal.log ++ line.bytes, journal.index⟩)
      | some broken => (.error (appendError broken.cause), journal) := by
  unfold append appendBytes
  cases disk journal.log.length line.bytes.length with
  | none => rfl
  | some broken => simp

theorem append_cases (disk : Disk) (journal : Journal) (line : JournalLine) :
    (∃ cause, journal.append disk line = (.error (appendError cause), journal)) ∨
      journal.append disk line = (.ok (), ⟨journal.log ++ line.bytes, journal.index⟩) := by
  rw [append_eq]
  cases disk journal.log.length line.bytes.length with
  | none => exact .inr rfl
  | some broken => exact .inl ⟨broken.cause, rfl⟩

theorem grown_put (disk : Disk) (journal : Journal) (code : ShortCode) (url owner : String) :
    journal.Grown (journal.put disk code url owner).2 := by
  unfold put
  cases refused : journal.index.refusal? code url with
  | some error => exact grown_refl journal
  | none =>
    obtain ⟨cause, failed⟩ | stored := append_cases disk journal (.live code url owner)
    · rw [failed]
      exact grown_refl journal
    · rw [stored]
      refine ⟨[.live code url owner], by simp, ?_⟩
      exact (Replay.apply_live refused owner).symm

theorem grown_putLeading (disk : Disk) (owner : String) (entries : List BatchEntry)
    (journal : Journal) : journal.Grown (putLeading disk owner entries journal).2 := by
  induction entries generalizing journal with
  | nil => exact grown_refl journal
  | cons entry entries ih =>
    have first := grown_put disk journal entry.code entry.url owner
    unfold putLeading
    cases stored : journal.put disk entry.code entry.url owner with
    | mk answer next =>
      rw [stored] at first
      cases answer with
      | error error => exact first
      | ok done => exact grown_trans first (ih next)

theorem grown_bury (disk : Disk) (journal : Journal) (code : ShortCode) (owner : String) :
    journal.Grown (journal.bury disk code owner).2 := by
  unfold bury
  by_cases able : journal.index.canBury code owner = true
  · rw [if_pos able]
    obtain ⟨cause, failed⟩ | stored :=
      append_cases disk journal (.tombstone code (journal.urlOf code) owner)
    · rw [failed]
      exact grown_refl journal
    · rw [stored]
      exact ⟨[.tombstone code (journal.urlOf code) owner], by simp, rfl⟩
  · rw [if_neg able]
    exact grown_refl journal

theorem grown_markDeleted (disk : Disk) (owner : String) (codes : List ShortCode)
    (journal : Journal) : journal.Grown (markDeleted disk owner codes journal).2 := by
  induction codes generalizing journal with
  | nil => exact grown_refl journal
  | cons code codes ih =>
    have first := grown_bury disk journal code owner
    unfold markDeleted
    cases buried : journal.bury disk code owner with
    | mk answer next =>
      rw [buried] at first
      cases answer with
      | error error => exact first
      | ok done => exact grown_trans first (ih next)

theorem grown_perform {α : Type} (disk : Disk) (journal : Journal) (call : StoreCall α) :
    journal.Grown (Backend.performJournal disk journal call).2 := by
  cases call with
  | put code url owner => exact grown_put disk journal code url owner
  | putBatch entries owner => exact grown_putLeading disk owner entries journal
  | markDeleted codes owner => exact grown_markDeleted disk owner codes journal
  | get code => exact grown_refl journal
  | findUrl url => exact grown_refl journal
  | listByOwner owner => exact grown_refl journal
  | stats => exact grown_refl journal
  | probe deadline busy => exact grown_refl journal
  | shutdown => exact grown_refl journal

/-- The calls one after the other, each with the disk as it is then. -/
def session : List (Disk × Ask) → Journal → List Reply × Journal
  | [], journal => ([], journal)
  | (disk, ask) :: calls, journal =>
      let (answer, next) := Backend.performJournal disk journal ask.call
      let (replies, last) := session calls next
      (⟨answer⟩ :: replies, last)

theorem grown_session (calls : List (Disk × Ask)) (journal : Journal) :
    journal.Grown (session calls journal).2 := by
  induction calls generalizing journal with
  | nil => exact grown_refl journal
  | cons call calls ih =>
    rcases call with ⟨disk, ask⟩
    exact grown_trans (grown_perform disk journal ask.call) (ih _)

/-- What may happen to an open journal. -/
inductive Event
  | call (disk : Disk) (ask : Ask)
  | reopen

def Event.call? : Event → Option (Disk × Ask)
  | call disk ask => some (disk, ask)
  | reopen => none

/-- The answers to the calls and the journal at the end, or the error of the first
reopening that fails. -/
def play (path : String) : List Event → Journal → Except StorageError (List Reply × Journal)
  | [], journal => .ok ([], journal)
  | .call disk ask :: events, journal =>
      let (answer, next) := Backend.performJournal disk journal ask.call
      (play path events next).map fun (replies, last) => (⟨answer⟩ :: replies, last)
  | .reopen :: events, journal =>
      match (ofLog path journal.log).outcome with
      | .error error => .error error
      | .ok opened => play path events opened

/-- The log ends on a line boundary and stands for the index. -/
structure Faithful (journal : Journal) : Prop where
  closed : Closed journal.log
  replayed : (replay journal.log).outcome = .ok journal.index

theorem faithful_grown {journal next : Journal} (faithful : journal.Faithful)
    (grown : journal.Grown next) : next.Faithful := by
  rcases grown with ⟨written, log, index⟩
  constructor
  · rw [log]
    exact Text.closed_append faithful.closed (written_closed written)
  · rw [log, index, replay, Text.split_lines_append faithful.closed,
      Replay.lines_append faithful.replayed, split_written]
    exact Replay.lines_written _ _ written

theorem ofLog_outcome (path : String) (log : Text.Bytes) :
    (ofLog path log).outcome = (replay log).outcome.map fun index => ⟨log, index⟩ := by
  unfold ofLog
  generalize replay log = replayed
  rcases replayed with ⟨outcome, notices⟩
  cases outcome <;> rfl

theorem reopen_faithful {journal : Journal} (faithful : journal.Faithful) (path : String) :
    (ofLog path journal.log).outcome = .ok journal := by
  rw [ofLog_outcome, faithful.replayed]
  rfl

theorem open_replayed {path : String} {log : Text.Bytes} {journal : Journal}
    (opened : (ofLog path log).outcome = .ok journal) :
    journal.log = log ∧ (replay log).outcome = .ok journal.index := by
  rw [ofLog_outcome] at opened
  cases replayed : (replay log).outcome with
  | error error =>
    rw [replayed] at opened
    cases opened
  | ok index =>
    rw [replayed] at opened
    obtain rfl : ⟨log, index⟩ = journal := Except.ok.inj opened
    exact ⟨rfl, rfl⟩

theorem open_faithful {path : String} {log : Text.Bytes} {journal : Journal}
    (closed : Closed log) (opened : (ofLog path log).outcome = .ok journal) :
    journal.Faithful := by
  rcases open_replayed opened with ⟨rfl, replayed⟩
  exact ⟨closed, replayed⟩

theorem play_faithful {journal : Journal} (faithful : journal.Faithful) (path : String)
    (events : List Event) :
    journal.play path events = .ok (session (events.filterMap Event.call?) journal) := by
  -- Reopening a faithful journal gives the same journal, so only calls leave a trace.
  induction events generalizing journal with
  | nil => rfl
  | cons event events ih =>
    cases event with
    | call disk ask =>
      have next := faithful_grown faithful (grown_perform disk journal ask.call)
      simp only [play, ih next]
      rfl
    | reopen =>
      simp only [play, reopen_faithful faithful path]
      exact ih faithful

/-- After any calls, some of them failing part way through a line, the log is replayed into
the current index, and reopening between them any number of times changes no answer. -/
theorem reopening_changes_nothing {path : String} {log : Text.Bytes} {journal : Journal}
    (closed : Closed log) (opened : (ofLog path log).outcome = .ok journal)
    (events : List Event) :
    let after := session (events.filterMap Event.call?) journal
    journal.play path events = .ok after ∧ Closed after.2.log ∧
      (replay after.2.log).outcome = .ok after.2.index := by
  have faithful := open_faithful closed opened
  have last := faithful_grown faithful (grown_session (events.filterMap Event.call?) journal)
  exact ⟨play_faithful faithful path events, last.closed, last.replayed⟩

def noSpace : String := "No space left on device (os error 28)"

/-- The disk breaks off the second entry of a batch, and later a tombstone. -/
def brokenOff : List Event :=
  [.call (fun size _ => match size with | 0 => none | _ + 1 => some ⟨3, noSpace⟩)
      ⟨.putBatch [⟨⟨"a"⟩, "http://a"⟩, ⟨⟨"b"⟩, "http://b"⟩] "u1"⟩,
    .reopen, .call (fun _ _ => some ⟨7, noSpace⟩) ⟨.markDeleted [⟨"a"⟩] "u1"⟩,
    .reopen, .call .roomy ⟨.shutdown⟩, .call .roomy ⟨.listByOwner "u1"⟩]

theorem reopening_after_broken_appends :
    Closed [] ∧ (ofLog "links.json" []).outcome = .ok ⟨[], Index.empty⟩ ∧
      ∃ last, (Journal.mk [] Index.empty).play "links.json" brokenOff =
        .ok ([@Reply.mk Unit (.error (appendError noSpace)),
          @Reply.mk Unit (.error (appendError noSpace)), @Reply.mk Unit (.ok ()),
          @Reply.mk (List LinkRecord) (.ok [⟨⟨"a"⟩, "http://a", "u1", false⟩])], last) := by
  have closed : Closed [] := .inl rfl
  have opened : (ofLog "links.json" []).outcome = .ok ⟨[], Index.empty⟩ := rfl
  refine ⟨closed, opened, ?_⟩
  rw [(reopening_changes_nothing closed opened brokenOff).1]
  exact ⟨_, rfl⟩

end Journal

end ShortLinks
