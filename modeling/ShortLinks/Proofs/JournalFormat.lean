import ShortLinks.Proofs.JournalReplay

/-!
# The format of the log loses nothing

A line is written as a text that holds no newline, so the newline behind it ends it and nothing
else does. The text is taken as it stands, since it neither begins nor ends with white space, and
what was left out of it is read as what it was left out for. So lines that were written one after
the other are read one after the other, whatever strings they hold.
-/

namespace ShortLinks

set_option autoImplicit false

open Json
open Text (Bytes newline splitLines)

namespace JournalLine

theorem members_filter (line : JournalLine) :
    line.members = line.allMembers.filter fun member => schema.fields.all fun field =>
      field.name != member.1 || field.fallback != some member.2 := by
  rcases line with ⟨code, url, owner, deleted⟩
  by_cases anonymous : owner = ""
  · cases deleted <;> simp [members, allMembers, schema, required, anonymous]
  · have known : "" ≠ owner := fun same => anonymous same.symm
    cases deleted <;> simp [members, allMembers, schema, required, anonymous, known]

theorem mem_members_iff (line : JournalLine) (name : String) (value : Scalar) :
    (name, value) ∈ line.members ↔ (name, value) ∈ line.allMembers ∧
      ∀ field ∈ schema.fields, field.name = name → field.fallback ≠ some value := by
  rw [members_filter, List.mem_filter]
  simp [imp_iff_not_or]

/-- How a line stands in the log, and what is read of it there. -/
structure Framed (line : JournalLine) (text : String) : Prop where
  spelled : text = encodeMembers line.members
  -- Only what its field is read as anyway is left out.
  omitted : ∀ name value, (name, value) ∈ line.members ↔ (name, value) ∈ line.allMembers ∧
    ∀ field ∈ schema.fields, field.name = name → field.fallback ≠ some value
  bytes : line.bytes = Text.encode text ++ [newline]
  alone : newline ∉ Text.encode text
  split : ∀ rest : Bytes, splitLines (line.bytes ++ rest) = Text.encode text :: splitLines rest
  decoded : Text.decode? (Text.encode text) = some text
  trimmed : Text.trim text.toList = text.toList
  parsed : fromJson text = .ok line

theorem framed (line : JournalLine) : Framed line line.toJson where
  spelled := rfl
  omitted := line.mem_members_iff
  bytes := rfl
  alone := line.newline_not_mem_body
  split rest := by
    rw [Text.split_lines_append line.bytes_closed, line.split_bytes]
    rfl
  decoded := Text.decode_encode line.toJson
  trimmed := Text.trim_of_visible line.json_visible
  parsed := line.from_json_written

theorem read_bodies (lines : List JournalLine) :
    (lines.map body).mapM read = .ok (lines.map some) := by
  induction lines with
  | nil => rfl
  | cons line lines induction =>
    rw [List.map_cons, List.mapM_cons, line.read_body, induction]
    rfl

/-- A disk that takes a line has it behind the log, and one that breaks it off leaves the log as it
was. A line in the log stands there by itself and is read back, and a log of lines is read as these
lines. -/
theorem log_lines_are_lossless (line : JournalLine) (lines : List JournalLine) :
    (∀ (disk : Disk) (journal : Journal), journal.append disk line =
        match disk journal.log.length line.bytes.length with
        | none => (.ok (), ⟨journal.log ++ line.bytes, journal.index⟩)
        | some broken => (.error (Journal.appendError broken.cause), journal)) ∧
      (∃ text, Framed line text) ∧
      (splitLines (lines.flatMap bytes)).mapM read = .ok (lines.map some) := by
  refine ⟨?_, ⟨line.toJson, line.framed⟩, ?_⟩
  · exact fun disk journal => Journal.append_eq disk journal line
  · rw [split_written, read_bodies]

example : (live ⟨"a"⟩ "\"\\\n\u2028" "").toJson =
    "\x7b\"short_url\":\"a\",\"original_url\":\"\\\"\\\\\\n\u2028\"\x7d" := by
  decide +kernel

end JournalLine

end ShortLinks
