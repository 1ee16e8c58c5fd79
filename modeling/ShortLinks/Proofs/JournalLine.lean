import ShortLinks.Journal.Line
import ShortLinks.Proofs.JsonText
import ShortLinks.Proofs.Lines
import ShortLinks.Proofs.Utf8

/-!
# Journal lines are lossless and frame themselves

The bytes of a line end in the only newline they hold, and without it they are read back as
the line they were written from, a left-out owner and a left-out tombstone included. So a
log that consists of whole lines is split into exactly the lines that were appended.
-/

namespace ShortLinks

set_option autoImplicit false

open Json

namespace JournalLine

/-- The members of a line, those that are left out included. -/
def allMembers (line : JournalLine) : Members :=
  [("short_url", .text line.code.text), ("original_url", .text line.url),
    ("user_id", .text line.owner), ("is_deleted", .flag line.deleted)]

theorem all_members_readable (line : JournalLine) : Readable schema line.allMembers := by
  constructor
  · simp [allMembers]
  · simp [allMembers, text_reads_back, flag_reads_back]
  · simp [allMembers, schema, required, Scalar.kind]

theorem members_sublist (line : JournalLine) : line.members.Sublist line.allMembers := by
  rcases line with ⟨code, url, owner, deleted⟩
  by_cases anonymous : owner = ""
  · cases deleted <;> simp [members, allMembers, anonymous]
  · cases deleted <;> simp [members, allMembers, anonymous]

theorem members_readable (line : JournalLine) : Readable schema line.members :=
  line.all_members_readable.sublist line.members_sublist

theorem complete_members (line : JournalLine) :
    complete line.members schema.fields = .ok line.allMembers := by
  rcases line with ⟨code, url, owner, deleted⟩
  by_cases anonymous : owner = ""
  · subst anonymous
    cases deleted <;> rfl
  · cases deleted <;> simp [members, allMembers, anonymous, schema, required, complete,
      List.lookup_cons, List.lookup_nil, Except.map]

theorem from_json_written (line : JournalLine) : fromJson line.toJson = .ok line := by
  rw [fromJson, toJson, decode_record_written line.members_readable, complete_members]
  rfl

theorem json_visible (line : JournalLine) : Text.Visible line.toJson.toList := by
  rw [toJson, encodeMembers, String.toList_ofList, writeMembers]
  constructor
  · intro c begins
    obtain rfl : '\x7b' = c := by simpa using begins
    decide
  · intro c ends
    rw [List.getLast?_append] at ends
    obtain rfl : '\x7d' = c := Option.some.inj ends
    decide

theorem newline_not_mem_json (line : JournalLine) : '\n' ∉ line.toJson.toList := by
  rw [toJson, encodeMembers, String.toList_ofList]
  exact newline_not_mem_members line.members

theorem json_ne_nil (line : JournalLine) : line.toJson.toList ≠ [] := by
  simp [toJson, encodeMembers, writeMembers]

/-- The bytes of a line without the newline that ends it. -/
def body (line : JournalLine) : Text.Bytes := Text.encode line.toJson

theorem bytes_eq (line : JournalLine) : line.bytes = line.body ++ [Text.newline] := rfl

theorem newline_not_mem_body (line : JournalLine) : Text.newline ∉ line.body := by
  rw [body, Text.newline_mem_encode]
  exact line.newline_not_mem_json

theorem split_bytes (line : JournalLine) : Text.splitLines line.bytes = [line.body] :=
  Text.split_lines_terminated line.newline_not_mem_body []

theorem bytes_closed (line : JournalLine) : Text.Closed line.bytes := .inr ⟨line.body, rfl⟩

theorem read_body (line : JournalLine) : read line.body = .ok (some line) := by
  have core : Text.trim line.toJson.toList = line.toJson.toList :=
    Text.trim_of_visible line.json_visible
  rcases List.exists_cons_of_ne_nil line.json_ne_nil with ⟨first, later, spelled⟩
  have same : String.ofList (first :: later) = line.toJson := by
    rw [← spelled, String.ofList_toList]
  rw [spelled] at core
  simp only [read, body, Text.decode_encode, spelled, core, same, from_json_written]

end JournalLine

end ShortLinks
