import ShortLinks.Database.Migration
import ShortLinks.Text.Hex
import ShortLinks.Text.Lines
import ShortLinks.Text.Split

/-!
# Database files as bytes

The image of a database file on a disk: a line that tells what it is, and then one
line for each thing the file holds, as words with a blank between them. Text and
blobs are written in hexadecimal, so no value can break a line.
-/

namespace ShortLinks

set_option autoImplicit false

namespace Cell

def toWord : Cell → String
  | null => "null"
  | integer value => "i" ++ toString value
  | real => "real"
  | text bytes => "t" ++ String.ofList (Text.hex bytes)
  | blob bytes => "b" ++ String.ofList (Text.hex bytes)

def ofWord? (word : String) : Option Cell :=
  match word with
  | "null" => some .null
  | "real" => some .real
  | _ =>
      match word.toList with
      | 'i' :: digits => (String.ofList digits).toInt?.map .integer
      | 't' :: digits => (Text.unhex? digits).map .text
      | 'b' :: digits => (Text.unhex? digits).map .blob
      | _ => none

end Cell

namespace DatabaseFile

def imageTitle : String := "short links database"

def flagWord (flag : Bool) : String := if flag then "yes" else "no"

def wordFlag? : String → Option Bool
  | "yes" => some true
  | "no" => some false
  | _ => none

def textWord (text : String) : String := (Cell.ofText text).toWord

def wordText? (word : String) : Option String := do
  match ← Cell.ofWord? word with
  | .text bytes => Text.decode? bytes
  | _ => none

def imageLines (file : DatabaseFile) : List (List String) :=
  let mark :=
    match file.mark with
    | none => []
    | some mark =>
        [["mark", toString mark.version, flagWord mark.unchanged, flagWord mark.finished]]
  let table :=
    match file.table with
    | none => []
    | some table =>
        [["table"]] ++
          table.rows.map (fun row =>
            ["row", row.code.toWord, row.url.toWord, row.owner.toWord, row.deleted.toWord]) ++
          table.blockedInserts.map (fun code => ["insert", textWord code.text]) ++
          table.blockedUpdates.map (fun code => ["update", textWord code.text])
  mark ++ table

def toImage (file : DatabaseFile) : Text.Bytes :=
  (imageTitle :: file.imageLines.map (" ".intercalate ·)).flatMap fun line =>
    Text.encode line ++ [Text.newline]

/-- Changes the table, which a line before must have begun. -/
def withTable? (file : DatabaseFile) (change : LinkTable → LinkTable) : Option DatabaseFile :=
  file.table.map fun table => { file with table := some (change table) }

/-- What a line adds to the file that the lines before it make. -/
def addLine? (file : DatabaseFile) (words : List String) : Option DatabaseFile := do
  match words with
  | ["mark", version, unchanged, finished] =>
      return { file with
        mark := some ⟨← version.toNat?, ← wordFlag? unchanged, ← wordFlag? finished⟩ }
  | ["table"] => return { file with table := some .empty }
  | ["row", code, url, owner, deleted] =>
      let row : Row :=
        ⟨← Cell.ofWord? code, ← Cell.ofWord? url, ← Cell.ofWord? owner, ← Cell.ofWord? deleted⟩
      file.withTable? fun table => { table with rows := table.rows ++ [row] }
  | ["insert", code] =>
      let blocked : ShortCode := ⟨← wordText? code⟩
      file.withTable? fun table =>
        { table with blockedInserts := table.blockedInserts ++ [blocked] }
  | ["update", code] =>
      let blocked : ShortCode := ⟨← wordText? code⟩
      file.withTable? fun table =>
        { table with blockedUpdates := table.blockedUpdates ++ [blocked] }
  | _ => none

def ofImage? (bytes : Text.Bytes) : Option DatabaseFile := do
  match ← (Text.splitLines bytes).mapM Text.decode? with
  | [] => none
  | title :: lines =>
      if title ≠ imageTitle then none
      (lines.map fun line => (Text.splitAt ' ' line.toList).map String.ofList).foldlM addLine? .fresh

end DatabaseFile

end ShortLinks
