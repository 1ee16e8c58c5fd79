import ShortLinks.Database.Image
import ShortLinks.Keyed
import ShortLinks.Text.Split
import ShortLinks.Text.Utf8

/-!
# The folder

The folder that the files of all stores lie in. A path names a file in it, or
fails to: there are no folders below it, and none beside it.
-/

namespace ShortLinks

set_option autoImplicit false

inductive FileContent
  | plain (bytes : Text.Bytes)
  | database (file : DatabaseFile)
  deriving DecidableEq, Repr

namespace FileContent

def toBytes : FileContent → Text.Bytes
  | plain bytes => bytes
  | database file => file.toImage

def ofBytes (bytes : Text.Bytes) : FileContent :=
  match DatabaseFile.ofImage? bytes with
  | some file => .database file
  | none => .plain bytes

end FileContent

structure Folder where
  root : String
  files : Keyed String FileContent
  deriving DecidableEq, Repr

inductive PathFault
  | isFolder
  | missing
  | belowFile
  | tooLong
  | hasNul
  deriving DecidableEq, Repr

def PathFault.message : PathFault → String
  | isFolder => "Is a directory (os error 21)"
  | missing => "No such file or directory (os error 2)"
  | belowFile => "Not a directory (os error 20)"
  | tooLong => "File name too long (os error 36)"
  | hasNul => "file name contained an unexpected NUL byte"

namespace Folder

def empty (root : String) : Folder := ⟨root, Keyed.empty⟩

/-- The names of a path that lead anywhere. -/
def steps (path : List Char) : List String :=
  ((Text.splitAt '/' path).filter fun name => name ≠ [] && name ≠ ['.']).map String.ofList

/-- A path as seen from the folder: what stands behind the folder's own name, or a
path that does not start at the root of everything. -/
def below? (root path : List Char) : Option (List Char) :=
  if root.isPrefixOf path then
    match path.drop root.length with
    | [] => some []
    | '/' :: rest => some rest
    | other => if root = [] then some other else none
  else if path.head? = some '/' then none
  else some path

def splitPath (path : String) : String × String :=
  let reversed := path.toList.reverse
  (String.ofList ((reversed.dropWhile (· != '/')).drop 1).reverse,
    String.ofList (reversed.takeWhile (· != '/')).reverse)

/-- The longest name that a file can have, in bytes. A database engine wants some of them for the
files beside its own, and so refuses names of more than 247; here it takes them. -/
def longestName : Nat := 255

/-- The file name that a path means, whether there is such a file or not. The dot in `name/.` is
passed over, where a system would ask for a folder of that name. -/
def locate (folder : Folder) (path : String) : Except PathFault String :=
  if path.toList.contains (Char.ofNat 0) then .error .hasNul
  else
    match below? folder.root.toList path.toList with
    | none => .error .missing
    | some inner =>
        match steps inner with
        | [] | [".."] => .error .isFolder
        | [name] =>
            if longestName < name.utf8ByteSize then .error .tooLong
            else if inner.getLast? = some '/' then
              .error (if folder.files.contains name then .belowFile else .isFolder)
            else .ok name
        | name :: _ =>
            .error (if folder.files.contains name then .belowFile else .missing)

def content? (folder : Folder) (name : String) : Option FileContent := folder.files.find? name

def write (folder : Folder) (name : String) (content : FileContent) : Folder :=
  { folder with files := folder.files.insert name content }

def bytes? (folder : Folder) (name : String) : Option Text.Bytes :=
  match folder.content? name with
  | some (.plain bytes) => some bytes
  | _ => none

end Folder

end ShortLinks
