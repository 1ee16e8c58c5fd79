import ShortLinks.CommandLine.Invocation
import ShortLinks.Deletion.Schedule
import ShortLinks.Json.Records
import ShortLinks.Service
import ShortLinks.Storage

/-!
# The office

A store with the service on it and nobody else about: requests are answered one
after the other, and a deletion is applied before the next request. Commands are
carried out by an office, and answered with text.
-/

namespace ShortLinks.CommandLine

set_option autoImplicit false

structure Office where
  store : Store
  shortener : Shortener
  pipeline : Deletion.Pipeline
  deriving DecidableEq, Repr

structure Failure where
  message : String
  cause : Option String
  deriving DecidableEq, Repr

namespace Failure

def ofService (error : ServiceError) : Failure := ⟨error.message, none⟩

/-- The lines behind the first of a text are indented as the first is. -/
def indented (text : String) : String :=
  String.ofList (text.toList.flatMap fun c => if c = '\n' then "\n    ".toList else [c])

def text (failure : Failure) : String :=
  match failure.cause with
  | none => "Error: " ++ failure.message
  | some cause =>
      "Error: " ++ failure.message ++ "\n\nCaused by:\n    " ++ indented cause

end Failure

namespace Office

def staff (store : Store) (settings : ServiceSettings) (codes : CodeSupply) : Office where
  store
  shortener := ⟨codes, settings.baseUrl, settings.healthTimeout⟩
  pipeline := .start settings.deletion

def answerCall {α : Type} (call : StoreCall α) (store : Store) :
    Except StorageError α × Store :=
  let (answer, next, _) := store.perform .roomy call
  (answer, next)

def inquire {α : Type} (office : Office) (inquiry : Inquiry α) :
    Except ServiceError α × Office :=
  let (answer, store) := inquiry.run answerCall office.store
  (answer, { office with store })

def applyRequest (request : Deletion.Request) (store : Store) : Deletion.Outcome × Store :=
  match answerCall (.markDeleted request.codes request.owner) store with
  | (.ok _, next) => (.applied, next)
  | (.error cause, next) => (.failed cause, next)

def settle (office : Office) : Office :=
  let (pipeline, _, store) := office.pipeline.run applyRequest office.store
  { office with pipeline, store }

/-- Hands a request to the pipeline, which refuses it once it is closed. -/
def delete (office : Office) (request : Deletion.Request) :
    Except ServiceError Unit × Office :=
  let taken := office.pipeline.intake
  let (pipeline, _) := office.pipeline.accept request
  (if taken then .ok () else .error .pipelineClosed, { office with pipeline }.settle)

def drain (office : Office) : Except ServiceError Unit × Office :=
  let (pipeline, _) := office.pipeline.close .drain
  { office with pipeline }.settle.inquire .closeStore

def told (text : String) : String := text ++ "\n"

def listed (objects : List Json.Members) : String := told (String.ofList (Json.layOutList objects))

def answered {α : Type} (answer : Except ServiceError α) (shown : α → String) :
    Except Failure String :=
  (answer.map shown).mapError Failure.ofService

/-- The items of a batch are numbered from zero. -/
def batchItems (urls : List String) : List BatchItem :=
  urls.zipIdx.map fun (url, number) => ⟨toString number, url⟩

def resolved (code : ShortCode) : Except ServiceError (Option String) → Except Failure String
  | .ok (some url) => .ok (told url)
  | .ok none => .error ⟨"short code not found: " ++ code.text, none⟩
  | .error (.gone _) => .error ⟨"short code has been deleted: " ++ code.text, none⟩
  | .error error => .error (.ofService error)

def obey (office : Office) (user : String) : Command → Except Failure String × Office
  | .shorten url =>
      let (inquiry, shortener) := office.shortener.shorten url user
      let (answer, next) := { office with shortener }.inquire inquiry
      (answered answer fun outcome => told outcome.link, next)
  | .batch urls =>
      let (inquiry, shortener) := office.shortener.shortenBatch (batchItems urls) user
      let (answer, next) := { office with shortener }.inquire inquiry
      (answered answer fun links => listed (links.map BatchLink.members), next)
  | .resolve code =>
      let (answer, next) := office.inquire (.resolve code)
      (resolved code answer, next)
  | .list =>
      let (answer, next) := office.inquire (.userUrls office.shortener.baseUrl user)
      (answered answer fun links => listed (links.map OwnedLink.members), next)
  | .delete codes =>
      let (answer, next) := office.delete ⟨user, codes⟩
      (answered answer fun _ =>
        told ("accepted " ++ toString codes.length ++ " code(s) for deletion"), next)
  | .ping =>
      let (answer, next) := office.inquire (.ping office.shortener.healthTimeout false)
      ((answer.map fun _ => told "ok").mapError fun error =>
        ⟨"storage is unreachable", some error.message⟩, next)
  | .stats =>
      let (answer, next) := office.inquire .stats
      (answered answer fun stats => told (String.ofList (Json.layOutMembers 0 stats.members)), next)

end Office

end ShortLinks.CommandLine
