import ShortLinks.Json.Records
import ShortLinks.Text.Blank
import ShortLinks.Text.Lines

/-!
# Journal lines

One line of the journal is one record, live or as a tombstone, written as a
JSON object without white space. The owner is left out if empty and the
tombstone if not set; both are read back so.
-/

namespace ShortLinks

set_option autoImplicit false

open Json

structure JournalLine where
  code : ShortCode
  url : String
  owner : String
  deleted : Bool
  deriving DecidableEq, Repr

namespace JournalLine

def schema : Schema :=
  ⟨"LogEntry",
    [required "short_url" .text, required "original_url" .text,
      ⟨"user_id", .text, some (.text "")⟩, ⟨"is_deleted", .flag, some (.flag false)⟩]⟩

def members (line : JournalLine) : Members :=
  [("short_url", .text line.code.text), ("original_url", .text line.url)] ++
    (if line.owner = "" then [] else [("user_id", .text line.owner)]) ++
    (if line.deleted then [("is_deleted", .flag true)] else [])

def ofMembers (members : Members) : Except Fault JournalLine := do
  let code ← textMember members "short_url"
  let url ← textMember members "original_url"
  let owner ← textMember members "user_id"
  let deleted ← flagMember members "is_deleted"
  return ⟨⟨code⟩, url, owner, deleted⟩

def toJson (line : JournalLine) : String := encodeMembers line.members

def fromJson (text : String) : Except Fault JournalLine :=
  (decodeRecord schema text).bind ofMembers

def bytes (line : JournalLine) : Text.Bytes := Text.encode line.toJson ++ [Text.newline]

def live (code : ShortCode) (url owner : String) : JournalLine := ⟨code, url, owner, false⟩

def tombstone (code : ShortCode) (url owner : String) : JournalLine := ⟨code, url, owner, true⟩

/-- Why the bytes between two newlines are no line of a journal. -/
inductive Flaw
  | notText
  | notRecord (fault : Fault)
  deriving DecidableEq, Repr

/-- What the bytes between two newlines hold: nothing but white space, or a
line with white space around it. -/
def read (bytes : Text.Bytes) : Except Flaw (Option JournalLine) :=
  match Text.decode? bytes with
  | none => .error .notText
  | some text =>
      match Text.trim text.toList with
      | [] => .ok none
      | trimmed =>
          match fromJson (String.ofList trimmed) with
          | .error fault => .error (.notRecord fault)
          | .ok line => .ok (some line)

end JournalLine

end ShortLinks
