import ShortLinks.Proofs.JournalStages
import ShortLinks.Proofs.JournalTorn

/-!
# A log that was cut off

A crash leaves the front of the log. If it was cut inside a line, be it inside a character, what
is left of that line is no record: a record is closed by its last character. Otherwise the lines
that are left lead to an index that the process has had.
-/

namespace ShortLinks

set_option autoImplicit false

open Json
open Text (Bytes Closed newline splitLines)

namespace Text

theorem closed_iff_last (bytes : Bytes) :
    Closed bytes ↔ ∀ last ∈ bytes.getLast?, last = newline := by
  constructor
  · rintro (rfl | ⟨front, rfl⟩) last held
    · cases held
    · rw [List.getLast?_concat] at held
      exact (Option.mem_some.1 held).symm
  · intro ends
    by_cases empty : bytes = []
    · exact .inl empty
    · have last := ends _ (List.getLast?_eq_some_getLast empty)
      exact .inr ⟨bytes.dropLast, by rw [← last, List.dropLast_append_getLast]⟩

instance (bytes : Bytes) : Decidable (Closed bytes) :=
  @decidable_of_iff _ _ (closed_iff_last bytes).symm (Option.decidableForallMem _)

end Text

namespace JournalLine

theorem json_closed (line : JournalLine) : line.toJson.toList.getLast? = some '\x7d' := by
  rw [toJson, encodeMembers, String.toList_ofList, writeMembers, List.getLast?_append]
  rfl

/-- Part of a line's text is white space in front of a part without any. -/
theorem trim_part {line : JournalLine} {part rest : List Char} (filled : part ≠ [])
    (whole : line.toJson.toList = part ++ rest) :
    Text.trim part ≠ [] ∧ ∃ after, line.toJson.toList = Text.trim part ++ (after ++ rest) := by
  rcases Text.trim_within part with ⟨before, after, blankBefore, blankAfter, same⟩
  rcases List.exists_cons_of_ne_nil filled with ⟨first, later, begins⟩
  have visible : Text.isBlank first = false := by
    apply line.json_visible.first first
    rw [whole, begins]
    rfl
  have nothing : before = [] := by
    cases before with
    | nil => rfl
    | cons c before =>
      have head : first = c := by
        rw [begins, List.cons_append] at same
        exact (List.cons.inj same).1
      rw [← head, List.forall_mem_cons, visible] at blankBefore
      cases blankBefore.1
  rw [nothing, List.nil_append] at same
  constructor
  · intro empty
    rw [empty, List.nil_append] at same
    have blank := blankAfter first (by rw [← same, begins]; exact List.mem_cons_self)
    rw [visible] at blank
    cases blank
  · exact ⟨after, by rw [whole, ← List.append_assoc, ← same]⟩

/-- What is left of a line that was broken off is no record. -/
theorem read_part {line : JournalLine} {part rest : Bytes} (whole : line.body = part ++ rest)
    (filled : part ≠ []) (missing : rest ≠ []) : ∃ flaw, read part = .error flaw := by
  cases decoded : Text.decode? part with
  | none => exact ⟨.notText, by rw [read, decoded]⟩
  | some text =>
    obtain rfl : Text.encode text = part := Text.encode_of_decode decoded
    rcases Text.part_of_encode ⟨rest, whole.symm⟩ with ⟨behind, spelled⟩
    have more : behind ≠ [] := by
      intro nothing
      rw [nothing, List.append_nil] at spelled
      rw [body, ← String.toList_inj.1 spelled] at whole
      exact missing (List.append_right_eq_self.1 whole.symm)
    have some : text.toList ≠ [] := by
      intro nothing
      rw [String.toList_eq_nil_iff.1 nothing] at filled
      exact filled rfl
    rcases trim_part some spelled.symm with ⟨core, after, split⟩
    cases parsed : fromJson (String.ofList (Text.trim text.toList)) with
    | error fault => exact ⟨.notRecord fault, by rw [read_core core, parsed]; rfl⟩
    | ok found =>
      -- Then the whole line would have trailing characters, but it can be read.
      rcases bind_ok parsed with ⟨members, record, _⟩
      have closing : '\x7d' ∈ after ++ behind := by
        apply List.mem_append_right
        apply List.mem_of_getLast?
        rw [← line.json_closed, ← spelled, List.getLast?_append_of_ne_nil _ more]
      have more : skipSpace (after ++ behind) ≠ [] := by
        intro spaces
        exact absurd (List.dropWhile_eq_nil_iff.1 spaces _ closing) (by decide)
      have trailing := decode_record_append schema_countless record more
      rw [← split, String.ofList_toList] at trailing
      have readable := line.from_json_written
      rw [fromJson, trailing] at readable
      cases readable

end JournalLine

namespace Journal

/-- The front of some lines: whole lines, and perhaps part of the next or all of it but its
newline. -/
inductive Cut (written : List JournalLine) : Bytes → Prop
  | between {kept later : List JournalLine} (whole : written = kept ++ later) :
      Cut written (kept.flatMap JournalLine.bytes)
  | unended {kept later : List JournalLine} {line : JournalLine}
      (whole : written = kept ++ line :: later) :
      Cut written (kept.flatMap JournalLine.bytes ++ line.body)
  | within {kept later : List JournalLine} {line : JournalLine} {part rest : Bytes}
      (whole : written = kept ++ line :: later) (body : line.body = part ++ rest)
      (filled : part ≠ []) (missing : rest ≠ []) :
      Cut written (kept.flatMap JournalLine.bytes ++ part)

theorem Cut.nothing (written : List JournalLine) : Cut written [] := by
  have first : Cut written (([] : List JournalLine).flatMap JournalLine.bytes) :=
    .between (List.nil_append written).symm
  exact first

theorem Cut.behind {written : List JournalLine} {front : Bytes} (cut : Cut written front)
    (line : JournalLine) : Cut (line :: written) (line.bytes ++ front) := by
  cases cut with
  | between whole =>
    rw [← List.flatMap_cons]
    exact .between (by rw [whole, List.cons_append])
  | unended whole =>
    rw [← List.append_assoc, ← List.flatMap_cons]
    exact .unended (by rw [whole, List.cons_append])
  | within whole body filled missing =>
    rw [← List.append_assoc, ← List.flatMap_cons]
    exact .within (by rw [whole, List.cons_append]) body filled missing

theorem cut_line (line : JournalLine) (later : List JournalLine) {front : Bytes}
    (part : front <+: line.bytes) : Cut (line :: later) front := by
  rw [JournalLine.bytes_eq] at part
  cases List.prefix_concat_iff.1 part with
  | inl whole =>
    have first : Cut (line :: later) ([line].flatMap JournalLine.bytes) := .between rfl
    rwa [List.flatMap_singleton, JournalLine.bytes_eq, ← whole] at first
  | inr within =>
    rcases within with ⟨rest, body⟩
    by_cases empty : front = []
    · rw [empty]
      exact .nothing (line :: later)
    · by_cases missing : rest = []
      · have first : Cut (line :: later) ([].flatMap JournalLine.bytes ++ line.body) := .unended rfl
        rw [missing, List.append_nil] at body
        rwa [← body] at first
      · have first : Cut (line :: later) ([].flatMap JournalLine.bytes ++ front) :=
          .within rfl body.symm empty missing
        exact first

theorem cut_written {written : List JournalLine} {front : Bytes}
    (part : front <+: written.flatMap JournalLine.bytes) : Cut written front := by
  induction written generalizing front with
  | nil =>
    rw [List.prefix_nil.1 part]
    exact .nothing []
  | cons line written induction =>
    rw [List.flatMap_cons] at part
    cases List.prefix_or_prefix_of_prefix part (List.prefix_append line.bytes _) with
    | inl within => exact cut_line line written within
    | inr longer =>
      rcases longer with ⟨behind, rfl⟩
      rw [List.prefix_append_right_inj] at part
      exact (induction part).behind line

theorem replay_written (written : List JournalLine) :
    (replay (written.flatMap JournalLine.bytes)).outcome =
      .ok (Replay.applyAll Index.empty written) := by
  rw [replay, split_written]
  exact Replay.lines_written 1 Index.empty written

theorem split_part (kept : List JournalLine) {part : Bytes} (whole : newline ∉ part)
    (filled : part ≠ []) :
    splitLines (kept.flatMap JournalLine.bytes ++ part) =
      kept.map JournalLine.body ++ [part] := by
  rw [Text.split_lines_append (written_closed kept), split_written,
    Text.split_lines_open whole filled]

theorem split_unended (kept : List JournalLine) (line : JournalLine) :
    splitLines (kept.flatMap JournalLine.bytes ++ line.body) =
      (kept ++ [line]).map JournalLine.body := by
  have filled : line.body ≠ [] := by
    intro empty
    have readable := line.read_body
    rw [empty, JournalLine.read_nil] at readable
    cases readable
  rw [split_part kept line.newline_not_mem_body filled, List.map_append]
  rfl

/-- The newline behind the last line makes no difference. -/
theorem replay_unended (kept : List JournalLine) (line : JournalLine) :
    (replay (kept.flatMap JournalLine.bytes ++ line.body)).outcome =
      .ok (Replay.applyAll Index.empty (kept ++ [line])) := by
  rw [replay, split_unended]
  exact Replay.lines_written 1 Index.empty (kept ++ [line])

theorem replay_part (kept : List JournalLine) {line : JournalLine} {part rest : Bytes}
    (body : line.body = part ++ rest) (filled : part ≠ []) (missing : rest ≠ []) :
    ∃ error, (replay (kept.flatMap JournalLine.bytes ++ part)).outcome = .error error := by
  have whole : newline ∉ part := by
    intro held
    apply line.newline_not_mem_body
    rw [body]
    exact List.mem_append_left rest held
  rcases JournalLine.read_part body filled missing with ⟨flaw, broken⟩
  rw [replay, split_part kept whole filled,
    Replay.lines_append (Replay.lines_written 1 Index.empty kept)]
  simp only [Replay.lines, broken]
  exact ⟨_, rfl⟩

/-- It ends on a line boundary or lacks the newline of its last line alone. -/
def CutAtLine (log front : Bytes) : Prop := Closed front ∨ front ++ [newline] <+: log

instance (log front : Bytes) : Decidable (CutAtLine log front) := by
  unfold CutAtLine
  infer_instance

theorem not_cut_at_line {kept later : List JournalLine} {line : JournalLine} {part rest : Bytes}
    (body : line.body = part ++ rest) (filled : part ≠ []) (missing : rest ≠ []) :
    ¬ CutAtLine ((kept ++ line :: later).flatMap JournalLine.bytes)
      (kept.flatMap JournalLine.bytes ++ part) := by
  have whole := line.newline_not_mem_body
  rw [body, List.mem_append, not_or] at whole
  rintro (closed | ended)
  · have last := List.getLast?_eq_some_getLast filled
    have ends : part.getLast filled = newline := by
      apply (Text.closed_iff_last _).1 closed
      rw [List.getLast?_append_of_ne_nil _ filled]
      exact last
    rw [ends] at last
    exact whole.1 (List.mem_of_getLast? last)
  · rcases List.exists_cons_of_ne_nil missing with ⟨next, behind, rfl⟩
    rw [List.flatMap_append, List.flatMap_cons, JournalLine.bytes_eq, body, List.append_assoc,
      List.append_assoc, List.append_assoc, List.prefix_append_right_inj,
      List.prefix_append_right_inj, List.cons_append, List.cons_prefix_cons] at ended
    exact whole.2 (ended.1 ▸ List.mem_cons_self)

/-- A crash may lose the latest changes, and it never leaves a store that was not there: the
front of a log is replayed if and only if it ends on a line boundary or lacks the newline of its
last line alone, and then into the index that the process had after as many changes as lines are
left. -/
theorem cut_log_is_passed_or_refused {path : String} {journal : Journal}
    (opened : (ofLog path []).outcome = .ok journal) (calls : List (Disk × Ask)) {front : Bytes}
    (cut : front <+: (session calls journal).2.log) :
    (CutAtLine (session calls journal).2.log front →
      ∃ index, (passage calls journal)[(splitLines front).length]? = some index ∧
        (replay front).outcome = .ok index) ∧
    (¬ CutAtLine (session calls journal).2.log front →
      ∃ error, (replay front).outcome = .error error) := by
  obtain rfl : ⟨[], Index.empty⟩ = journal := Except.ok.inj opened
  rcases passage_of_lines calls with ⟨written, log, passed⟩
  have reached : ∀ {held later : List JournalLine}, written = held ++ later →
      (passage calls ⟨[], Index.empty⟩)[held.length]? =
        some (Replay.applyAll Index.empty held) := by
    intro held later whole
    rw [passed held.length (by simp [whole]), whole, List.take_left]
  rw [log] at cut ⊢
  cases cut_written cut with
  | between whole =>
    rename_i kept later
    constructor
    · intro atLine
      refine ⟨Replay.applyAll Index.empty kept, ?_, replay_written kept⟩
      rw [split_written, List.length_map]
      exact reached whole
    · intro broken
      exact absurd (.inl (written_closed kept)) broken
  | unended whole =>
    rename_i kept later line
    constructor
    · intro atLine
      refine ⟨Replay.applyAll Index.empty (kept ++ [line]), ?_, replay_unended kept line⟩
      rw [split_unended, List.length_map]
      have split : written = (kept ++ [line]) ++ later := by
        rw [whole, List.append_assoc, List.singleton_append]
      exact reached split
    · intro broken
      apply absurd _ broken
      right
      rw [whole, List.flatMap_append, List.append_assoc, List.prefix_append_right_inj]
      exact List.prefix_append line.bytes _
  | within whole body filled missing =>
    rename_i kept later line part rest
    constructor
    · intro atLine
      rw [whole] at atLine
      exact absurd atLine (not_cut_at_line body filled missing)
    · intro broken
      exact replay_part kept body filled missing

/-- The second put cannot be appended. -/
def crashed : List (Disk × Ask) :=
  [(.roomy, ⟨.put ⟨"a"⟩ "http://ä" "u1"⟩),
    (fun _ _ => some ⟨7, noSpace⟩, ⟨.put ⟨"b"⟩ "http://b" "u1"⟩),
    (.roomy, ⟨.markDeleted [⟨"b"⟩, ⟨"a"⟩] "u1"⟩)]

/-- Only the last newline is missing in the first front, and the second ends within a letter. -/
theorem crashed_log_is_passed_or_refused :
    let log := (session crashed ⟨[], Index.empty⟩).2.log
    (∃ index, (passage crashed ⟨[], Index.empty⟩)[2]? = some index ∧
      (replay log.dropLast).outcome = .ok index) ∧
    ∃ error, (replay (log.take 41)).outcome = .error error := by
  intro log
  have opened : (ofLog "links.json" []).outcome = .ok ⟨[], Index.empty⟩ := rfl
  have unended : CutAtLine log log.dropLast := by decide +kernel
  have within : ¬ CutAtLine log (log.take 41) := by decide +kernel
  have lines : (splitLines log.dropLast).length = 2 := by decide +kernel
  constructor
  · rw [← lines]
    exact (cut_log_is_passed_or_refused opened crashed (List.dropLast_prefix log)).1 unended
  · exact (cut_log_is_passed_or_refused opened crashed (List.take_prefix 41 log)).2 within

end Journal

end ShortLinks
