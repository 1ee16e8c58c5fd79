import ShortLinks.Proofs.JournalReplay
import ShortLinks.Proofs.JsonPrefix
import Mathlib.Data.List.DropRight

/-!
# A last line without its newline

Replay accepts a log whose last line was not ended, but appending does not end it first: the
next line is written right behind it, and the two make one line with trailing characters. If
the open line holds a record, the log is then refused for good; if it is blank, it becomes
white space in front of the new line and the log stays usable.
-/

namespace ShortLinks

set_option autoImplicit false

open Json
open Text (Bytes Closed newline splitLines)

namespace Text

/-- What stands behind the last newline. -/
def openLine (log : Bytes) : Bytes := log.rtakeWhile (· != newline)

theorem open_line_whole (log : Bytes) : newline ∉ openLine log := by
  intro held
  have other := List.mem_rtakeWhile_imp held
  simp at other

theorem open_line_of_whole {line : Bytes} (whole : newline ∉ line) : openLine line = line := by
  apply List.rtakeWhile_eq_self_iff.2
  intro byte held
  have other : byte ≠ newline := fun same => whole (same ▸ held)
  simpa using other

theorem before_open_line (log : Bytes) : ∃ front, Closed front ∧ log = front ++ openLine log := by
  refine ⟨log.rdropWhile (· != newline), ?_, ?_⟩
  · by_cases empty : log.rdropWhile (· != newline) = []
    · exact .inl empty
    · have ends := List.rdropWhile_last_not (· != newline) log empty
      have last : (log.rdropWhile (· != newline)).getLast empty = newline := by simpa using ends
      have whole := List.dropLast_append_getLast empty
      rw [last] at whole
      exact .inr ⟨_, whole.symm⟩
  · rw [openLine, List.rdropWhile, List.rtakeWhile, ← List.reverse_append,
      List.takeWhile_append_dropWhile, List.reverse_reverse]

end Text

namespace JournalLine

theorem schema_countless : Countless schema := by
  intro field held
  simp only [schema, required, List.mem_cons, List.not_mem_nil, or_false] at held
  rcases held with rfl | rfl | rfl | rfl <;> decide

theorem read_nil : read [] = .ok none := by
  have empty : Text.decode? [] = some "" := Text.decode_encode ""
  simp [read, empty, Text.trim]

theorem read_blank {text : String} (blank : Text.trim text.toList = []) :
    read (Text.encode text) = .ok none := by
  simp only [read, Text.decode_encode, blank]

theorem read_core {text : String} (filled : Text.trim text.toList ≠ []) :
    read (Text.encode text) =
      ((fromJson (String.ofList (Text.trim text.toList))).mapError .notRecord).map some := by
  rcases List.exists_cons_of_ne_nil filled with ⟨c, rest, core⟩
  cases parsed : fromJson (String.ofList (c :: rest)) with
  | error fault => simp only [read, Text.decode_encode, core, parsed, Except.mapError, Except.map]
  | ok line => simp only [read, Text.decode_encode, core, parsed, Except.mapError, Except.map]

theorem text_of_read {bytes : Bytes} {outcome : Option JournalLine}
    (readable : read bytes = .ok outcome) : ∃ text, bytes = Text.encode text := by
  cases decoded : Text.decode? bytes with
  | none => simp [read, decoded] at readable
  | some text => exact ⟨text, (Text.encode_of_decode decoded).symm⟩

theorem read_blank_body {blank : Bytes} (nothing : read blank = .ok none) (line : JournalLine) :
    read (blank ++ line.body) = .ok (some line) := by
  rcases text_of_read nothing with ⟨text, rfl⟩
  have blank : Text.trim text.toList = [] := by
    by_contra filled
    rw [read_core filled] at nothing
    cases parsed : fromJson (String.ofList (Text.trim text.toList)) with
    | error fault => simp [parsed, Except.mapError, Except.map] at nothing
    | ok line => simp [parsed, Except.mapError, Except.map] at nothing
  have core : Text.trim (text.toList ++ line.toJson.toList) = line.toJson.toList := by
    rw [Text.trim_behind_blank (Text.blank_of_trim blank), Text.trim_of_visible line.json_visible]
  have same : (text ++ line.toJson).toList = text.toList ++ line.toJson.toList := by simp
  have filled : Text.trim (text ++ line.toJson).toList ≠ [] := by
    rw [same, core]
    exact line.json_ne_nil
  rw [body, ← Text.encode_append, read_core filled, same, core, String.ofList_toList,
    from_json_written]
  rfl

theorem json_not_space (gap : List Char) (line : JournalLine) :
    skipSpace (gap ++ line.toJson.toList) ≠ [] := by
  intro spaces
  have every := List.dropWhile_eq_nil_iff.1 spaces '\x7b'
    (by simp [toJson, encodeMembers, writeMembers])
  exact absurd every (by decide)

theorem read_record_body {held : Bytes} {record : JournalLine}
    (found : read held = .ok (some record)) (line : JournalLine) :
    read (held ++ line.body) = .error (.notRecord .trailingText) := by
  rcases text_of_read found with ⟨text, rfl⟩
  have filled : Text.trim text.toList ≠ [] := by
    intro blank
    rw [read_blank blank] at found
    cases found
  cases parsed : fromJson (String.ofList (Text.trim text.toList)) with
  | error fault => simp [read_core filled, parsed, Except.mapError, Except.map] at found
  | ok same =>
    rcases bind_ok parsed with ⟨members, decoded, _⟩
    rcases Text.trim_append filled line.json_visible line.json_ne_nil with ⟨gap, _, core⟩
    have trailing := decode_record_append schema_countless decoded (json_not_space gap line)
    have joined : (text ++ line.toJson).toList = text.toList ++ line.toJson.toList := by simp
    have joinedFilled : Text.trim (text ++ line.toJson).toList ≠ [] := by
      rw [joined, core]
      simp [filled]
    rw [body, ← Text.encode_append, read_core joinedFilled, joined, core, fromJson, trailing]
    rfl

end JournalLine

/-- The last line was not ended, and it is not blank. -/
def Torn (log : Bytes) : Prop := JournalLine.read (Text.openLine log) ≠ .ok none

instance (log : Bytes) : Decidable (Torn log) := by
  unfold Torn
  infer_instance

namespace Replay

/-- Lines are replayed only if those in front of them are. -/
theorem lines_split {number : Nat} {index last : Index} {first second : List Bytes}
    (replayed : (lines number index (first ++ second)).outcome = .ok last) :
    ∃ between, (lines number index first).outcome = .ok between := by
  induction first generalizing number index with
  | nil => exact ⟨index, rfl⟩
  | cons line first ih =>
    rw [List.cons_append] at replayed
    cases read : JournalLine.read line with
    | error flaw =>
      simp only [lines, read] at replayed
      cases replayed
    | ok found =>
      cases found with
      | none =>
        simp only [lines, read] at replayed ⊢
        exact ih replayed
      | some written =>
        simp only [lines, read] at replayed ⊢
        exact ih replayed

end Replay

namespace Journal

theorem split_appended {front last : Bytes} (closed : Closed front) (whole : newline ∉ last)
    (first : JournalLine) (later : List JournalLine) :
    splitLines (front ++ last ++ (first :: later).flatMap JournalLine.bytes) =
      splitLines front ++ (last ++ first.body) :: later.map JournalLine.body := by
  have joined : newline ∉ last ++ first.body := by
    rw [List.mem_append]
    exact fun held => held.elim whole first.newline_not_mem_body
  have spelled : last ++ (first :: later).flatMap JournalLine.bytes =
      (last ++ first.body) ++ newline :: later.flatMap JournalLine.bytes := by
    simp [JournalLine.bytes_eq]
  rw [List.append_assoc, Text.split_lines_append closed, spelled,
    Text.split_lines_terminated joined, split_written]

theorem replay_open {log : Bytes} {index : Index} (replayed : (replay log).outcome = .ok index) :
    ∃ front between, Closed front ∧ log = front ++ Text.openLine log ∧
      (Replay.lines 1 Index.empty (splitLines front)).outcome = .ok between ∧
      (Replay.lines (1 + (splitLines front).length) between
        (splitLines (Text.openLine log))).outcome = .ok index := by
  rcases Text.before_open_line log with ⟨front, closed, whole⟩
  have replayedWhole := replayed
  rw [replay, whole, Text.split_lines_append closed] at replayedWhole
  rcases Replay.lines_split replayedWhole with ⟨between, reached⟩
  rw [Replay.lines_append reached] at replayedWhole
  exact ⟨front, between, closed, whole, reached, replayedWhole⟩

theorem torn_log_refused {log : Bytes} {index : Index}
    (replayed : (replay log).outcome = .ok index) (torn : Torn log) (first : JournalLine)
    (later : List JournalLine) :
    (replay (log ++ (first :: later).flatMap JournalLine.bytes)).outcome =
      .error (.invalidData ("log line " ++ toString (splitLines log).length ++
        ": " ++ "trailing characters")) := by
  rcases replay_open replayed with ⟨front, between, closed, whole, reached, last⟩
  have filled : Text.openLine log ≠ [] := by
    intro empty
    rw [Torn, empty] at torn
    exact torn JournalLine.read_nil
  have lineWhole := Text.open_line_whole log
  have alone := Text.split_lines_open lineWhole filled
  have count : (splitLines log).length = 1 + (splitLines front).length := by
    rw [whole, Text.split_lines_append closed, alone, List.length_append,
      List.length_singleton, Nat.add_comm]
  rw [alone] at last
  cases read : JournalLine.read (Text.openLine log) with
  | error flaw =>
    simp only [Replay.lines, read] at last
    cases last
  | ok found =>
    cases found with
    | none => exact absurd read torn
    | some record =>
      -- The record and the first new line are one line now, and reading stops between them.
      rw [replay, count, whole, split_appended closed lineWhole, Replay.lines_append reached]
      simp only [Replay.lines, JournalLine.read_record_body read]
      rfl

theorem blank_log_kept {log : Bytes} {index : Index}
    (replayed : (replay log).outcome = .ok index) (blank : ¬ Torn log) (first : JournalLine)
    (later : List JournalLine) :
    (replay (log ++ (first :: later).flatMap JournalLine.bytes)).outcome =
      .ok (Replay.applyAll index (first :: later)) := by
  rcases replay_open replayed with ⟨front, between, closed, whole, reached, last⟩
  have nothing : JournalLine.read (Text.openLine log) = .ok none := not_not.1 blank
  have lineWhole := Text.open_line_whole log
  have same : between = index := by
    by_cases empty : Text.openLine log = []
    · rw [empty] at last
      exact Except.ok.inj last
    · rw [Text.split_lines_open lineWhole empty] at last
      simp only [Replay.lines, nothing] at last
      exact Except.ok.inj last
  rw [replay, whole, split_appended closed lineWhole, Replay.lines_append reached, ← same]
  simp only [Replay.lines, JournalLine.read_blank_body nothing]
  exact Replay.lines_written _ _ later

/-- Whether a log can still be opened after something was appended to it depends on its last
line alone: one that was not ended and is not blank makes it unreadable. -/
theorem torn_log_is_lost {path : String} {log : Bytes} {journal : Journal}
    (opened : (ofLog path log).outcome = .ok journal) (calls : List (Disk × Ask)) :
    let after := (session calls journal).2
    (ofLog path after.log).outcome =
      if Torn log ∧ after.log ≠ log then
        .error (.invalidData ("log line " ++ toString (splitLines log).length ++
          ": " ++ "trailing characters"))
      else .ok after := by
  intro after
  have grown : journal.Grown after := grown_session calls journal
  rcases open_replayed opened with ⟨same, replayed⟩
  rcases grown with ⟨written, grownLog, grownIndex⟩
  rw [same] at grownLog
  rw [ofLog_outcome]
  cases written with
  | nil =>
    have unchanged : after.log = log := by simpa using grownLog
    rw [if_neg fun both => both.2 unchanged, unchanged, replayed]
    have sameIndex : after.index = journal.index := grownIndex
    rw [← sameIndex, ← unchanged]
    rfl
  | cons first later =>
    have longer : after.log ≠ log := by
      rw [grownLog]
      simp [JournalLine.bytes_eq]
    by_cases torn : Torn log
    · rw [if_pos ⟨torn, longer⟩, grownLog, torn_log_refused replayed torn]
      rfl
    · rw [if_neg fun both => torn both.1, grownLog, blank_log_kept replayed torn, ← grownIndex,
        ← grownLog]
      rfl

/-- The bytes of one record without the newline behind them. -/
def openRecord : Bytes := (JournalLine.live ⟨"a"⟩ "http://a" "u1").body

/-- The put succeeds, and the log it leaves is refused. -/
theorem open_record_is_lost :
    ∃ index, (ofLog "links.json" openRecord).outcome = .ok ⟨openRecord, index⟩ ∧
      ∃ next, (Journal.mk openRecord index).put .roomy ⟨"b"⟩ "http://b" "u2" = (.ok (), next) ∧
        (ofLog "links.json" next.log).outcome =
          .error (.invalidData "log line 1: trailing characters") := by
  have held : JournalLine.read openRecord = .ok (some (.live ⟨"a"⟩ "http://a" "u1")) :=
    JournalLine.read_body _
  have filled : openRecord ≠ [] := by
    intro empty
    rw [empty, JournalLine.read_nil] at held
    cases held
  have whole : newline ∉ openRecord := JournalLine.newline_not_mem_body _
  have alone := Text.split_lines_open whole filled
  have replayed : (replay openRecord).outcome =
      .ok (Index.empty.store ⟨"a"⟩ "http://a" "u1") := by
    rw [replay, alone]
    simp only [Replay.lines, held]
    rfl
  have torn : Torn openRecord := by
    rw [Torn, Text.open_line_of_whole whole, held]
    simp
  have lost := torn_log_refused replayed torn (.live ⟨"b"⟩ "http://b" "u2") []
  rw [alone] at lost
  refine ⟨Index.empty.store ⟨"a"⟩ "http://a" "u1", ?_, _, rfl, ?_⟩
  · rw [ofLog_outcome, replayed]
    rfl
  · rw [List.flatMap_singleton] at lost
    rw [ofLog_outcome]
    exact congrArg (Except.map _) lost

/-- A blank last line is no obstacle. -/
theorem blank_log_is_kept :
    (ofLog "links.json" [32]).outcome = .ok ⟨[32], Index.empty⟩ ∧
      (ofLog "links.json" ([32] ++ (JournalLine.live ⟨"a"⟩ "http://a" "u1").bytes)).outcome =
        .ok ⟨[32] ++ (JournalLine.live ⟨"a"⟩ "http://a" "u1").bytes,
          Index.empty.store ⟨"a"⟩ "http://a" "u1"⟩ := by
  have nothing : Text.trim " ".toList = [] := rfl
  have space : JournalLine.read [32] = .ok none := JournalLine.read_blank nothing
  have opened : (ofLog "links.json" [32]).outcome = .ok ⟨[32], Index.empty⟩ := by
    rw [ofLog_outcome, replay, Text.split_lines_open (by decide) (by decide)]
    simp only [Replay.lines, space]
    rfl
  have blank : ¬ Torn [32] := not_not.2 space
  have kept := torn_log_is_lost opened [(.roomy, ⟨.put ⟨"a"⟩ "http://a" "u1"⟩)]
  exact ⟨opened, kept.trans (if_neg fun both => blank both.1)⟩

end Journal

end ShortLinks
