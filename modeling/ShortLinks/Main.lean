import ShortLinks.CommandLine.Run

/-!
# The program

The command line on a real folder. The file that the settings choose is read before
the command is carried out, and written after it.
-/

namespace ShortLinks.Main

set_option autoImplicit false

open CommandLine

def help : String :=
  let options := Setting.all.map fun setting => " [--" ++ setting.longName ++ " VALUE]"
  "usage: snip" ++ String.join options ++
    " (shorten URL | batch URL... | resolve CODE | list | delete CODE... | ping | stats)"

def environment : IO (List (String × String)) :=
  (Setting.all.filterMap Setting.environmentName?).filterMapM fun name => do
    return (← IO.getEnv name).map fun value => (name, value)

/-- Only a folder has a name for itself. -/
def isFolder (path : String) : IO Bool := do
  try
    discard (IO.FS.Handle.mk (path ++ "/.") .read)
    return true
  catch _ => return false

def readBytes? (path : String) : IO (Option Text.Bytes) := do
  try
    return some (← IO.FS.readBinFile path).toList
  catch _ => return none

/-- The folder that a path lies in, as far as the path tells what is in it. Behind
the root of everything nothing is found. -/
def folderOf (path : String) : IO Folder := do
  if ← isFolder path then return .empty path
  let (parent, name) := Folder.splitPath path
  if ← isFolder (if parent.isEmpty then (if path.startsWith "/" then "/" else ".") else parent) then
    let folder := Folder.empty parent
    match ← readBytes? path with
    | some bytes => return folder.write name (.ofBytes bytes)
    | none => return folder
  else return .empty "/"

def writeBytes (path : String) (before after : Text.Bytes) : IO Unit := do
  if before.isPrefixOf after then
    IO.FS.withFile path .append fun file =>
      file.write ⟨(after.drop before.length).toArray⟩
  else IO.FS.writeBinFile path ⟨after.toArray⟩

def saveFile (path : String) (before after : Folder) : IO Unit :=
  match after.locate path with
  | .error _ => return
  | .ok name => do
      let old := before.content? name
      let new := after.content? name
      if old = new then return
      match new with
      | none => return
      | some content => writeBytes path ((old.map FileContent.toBytes).getD []) content.toBytes

/-- A source of codes that nobody can foresee. -/
def freshCodes : IO CodeSupply := do
  let seed := (← IO.getRandomBytes 8).toList.foldl
    (fun word byte => word * 256 + byte.toUInt64) (0 : UInt64)
  return .drawn ⟨keyLength, seed⟩

def carryOut (invocation : Invocation) : IO Finished := do
  let path? := invocation.storage.choice.path?
  let before ←
    match path? with
    | none => pure (Folder.empty "")
    | some path => folderOf path
  let (finished, session) := invocation.carryOut ⟨before, ← freshCodes⟩
  match path? with
  | none => return finished
  | some path =>
      saveFile path before session.folder
      return finished

def start (arguments : List String) : IO UInt32 := do
  match Invocation.parse (← environment) arguments with
  | .error .help =>
      IO.println help
      return 0
  | .error .usage =>
      IO.eprintln help
      return 2
  | .ok invocation =>
      let finished ← carryOut invocation
      IO.print finished.output
      match finished.complaint with
      | some text => IO.eprintln text
      | none => pure ()
      return finished.exit.toUInt32

end ShortLinks.Main

def main (arguments : List String) : IO UInt32 := ShortLinks.Main.start arguments
