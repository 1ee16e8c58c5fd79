import ShortLinks.CommandLine.Filter
import ShortLinks.CommandLine.Office

/-!
# A run of the program

One command from its command line to its exit status. The storage is opened, the
command is carried out, and all deletions are applied before the run ends. What is
left for the next run is the folder, and the codes that have not been drawn yet.
-/

namespace ShortLinks.CommandLine

set_option autoImplicit false

structure Session where
  folder : Folder
  codes : CodeSupply
  deriving DecidableEq, Repr

/-- How a run ended: its exit status, what it wrote, and what it complained of. -/
structure Finished where
  exit : Nat
  output : String
  complaint : Option String
  deriving DecidableEq, Repr

namespace Finished

def success (output : String) : Finished := ⟨0, output, none⟩

/-- A command that failed has written nothing but its complaint. -/
def failure (failure : Failure) : Finished := ⟨1, "", some failure.text⟩

def refusal : Refusal → Finished
  | .usage => ⟨2, "", none⟩
  | .help => ⟨0, "", none⟩

end Finished

def invalidLogLevel (level : String) : Failure :=
  ⟨"invalid log level " ++ Text.quoted level, none⟩

namespace Office

/-- Carries out a command, and closes the office. A failure to close is reported
before the command's own. -/
def serve (office : Office) (user : String) (command : Command) : Finished × Office :=
  let (outcome, behind) := office.obey user command
  let (closing, closed) := behind.drain
  let finished :=
    match closing, outcome with
    | .error error, .ok output =>
        { Finished.failure ⟨"failed to close storage", some error.message⟩ with output }
    | .error error, .error _ =>
        Finished.failure ⟨"failed to close storage", some error.message⟩
    | .ok _, .ok output => .success output
    | .ok _, .error why => .failure why
  (finished, closed)

end Office

namespace Invocation

def carryOut (invocation : Invocation) (session : Session) : Finished × Session :=
  if !isFilter invocation.logLevel then
    (.failure (invalidLogLevel invocation.logLevel), session)
  else
    let opened := Store.openChosen session.folder invocation.storage
    match opened.outcome with
    | .error error =>
        (.failure ⟨"failed to open storage", some error.message⟩,
          { session with folder := opened.folder })
    | .ok store =>
        let office := Office.staff store invocation.service session.codes
        let (finished, closed) := office.serve invocation.user invocation.command
        (finished, ⟨closed.store.save opened.folder, closed.shortener.codes⟩)

end Invocation

def run (environment : List (String × String)) (arguments : List String)
    (session : Session) : Finished × Session :=
  match Invocation.parse environment arguments with
  | .error why => (.refusal why, session)
  | .ok invocation => invocation.carryOut session

end ShortLinks.CommandLine
