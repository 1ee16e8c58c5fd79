import ShortLinks.Rehearsal.World

/-!
# Playing a rehearsal

What each step does to the world, and the script as a whole: the plan is opened,
and its steps are played one after the other. A plan that cannot be opened has no
steps; one that cannot be opened again leaves steps that find no store.
-/

namespace ShortLinks.Rehearsal

set_option autoImplicit false

structure Scene where
  reply : Reply
  notices : List Notice

namespace Tampering

def apply (how : Tampering) (file : DatabaseFile) : DatabaseFile :=
  { file with
    mark := file.mark.bind fun mark =>
      match how with
      | dirty => some { mark with finished := false }
      | checksum => some { mark with unchanged := false }
      | unknown => some { mark with version := 7 }
      | forget => none }

end Tampering

namespace Upset

def apply (upset : Upset) (file : DatabaseFile) : DatabaseFile :=
  match upset with
  | addRow row => { file with table := file.table.map (·.insertRaw row) }
  | dropTable => { file with table := none }
  | blockUpdate code =>
      { file with
        table := file.table.map fun table =>
          { table with blockedUpdates := code :: table.blockedUpdates } }
  | blockInsert code =>
      { file with
        table := file.table.map fun table =>
          { table with blockedInserts := code :: table.blockedInserts } }
  | tamper how => how.apply file

end Upset

namespace World

def setStore (world : World) (store : Store) : World :=
  { world with store := some store, folder := store.save world.folder }

def present {α : Type} (world : World) (call : StoreCall α) (shown : α → Reply) :
    Reply × World :=
  let (answer, next) := world.perform call
  (.ofStore shown answer, next)

def ask {α : Type} (world : World) (inquiry : Inquiry α) (shown : α → Reply) :
    Reply × World :=
  let (answer, next) := world.inquire inquiry
  (.ofService shown answer, next)

def raceAll (world : World) : List (BatchEntry × String) →
    List (Except StorageError Unit) × World
  | [] => ([], world)
  | (entry, owner) :: later =>
      let (outcome, next) := world.perform (.put entry.code entry.url owner)
      let (outcomes, last) := raceAll next later
      (outcome :: outcomes, last)

/-- Another program appends bytes to the journal's file. An open journal sees them
in its log, but not in its index. -/
def appendLog (world : World) (bytes : Text.Bytes) : World :=
  let before := (world.folder.bytes? journalName).getD []
  let store := world.store.map fun store =>
    match store.backend with
    | .journal path journal =>
        if store.home = some journalName then
          { store with backend := .journal path { journal with log := before ++ bytes } }
        else store
    | _ => store
  { world with store, folder := world.folder.write journalName (.plain (before ++ bytes)) }

def logText? (world : World) : Option String :=
  (world.folder.bytes? journalName).map Text.lossy

def withDatabase (world : World) (change : Database → Reply × Database) : Reply × World :=
  match world.store with
  | some ⟨.database database, home⟩ =>
      let (reply, next) := change database
      (reply, world.setStore ⟨.database next, home⟩)
  | _ => (.unusable, world)

/-- The same request again and again, and what came of it. -/
def acceptAgain (crew : Nat) (request : Deletion.Request) : Nat → World →
    List Reply × World
  | 0, world => ([], world)
  | times + 1, world =>
      let (reply, next) := world.accept crew request
      let (replies, last) := acceptAgain crew request times next
      (reply :: replies, last)

def tallyOf (replies : List Reply) : Reply :=
  let isAccepted : Reply → Bool
    | .done => true
    | _ => false
  let isWaiting : Reply → Bool
    | .task _ => true
    | _ => false
  let accepted := (replies.filter isAccepted).length
  let waiting := (replies.filter isWaiting).length
  .tally accepted waiting (replies.length - accepted - waiting)

def onPipeline (world : World) (use : Nat → Deletion.Pipeline → Reply × World) :
    Reply × World :=
  match world.pipeline with
  | none => (.unusable, world)
  | some crew =>
      match world.crews[crew]? with
      | none => (.unusable, world)
      | some found => use crew found.pipeline

def onService (world : World)
    (use : Shortener → Nat → Deletion.Pipeline → Reply × World) : Reply × World :=
  match world.service with
  | none => (.unusable, world)
  | some (shortener, crew) =>
      match world.crews[crew]? with
      | none => (.unusable, world)
      | some found => use shortener crew found.pipeline

def setShortener (world : World) (shortener : Shortener) (crew : Nat) : World :=
  { world with service := some (shortener, crew) }

def callCounts (world : World) : Reply := .calls world.gate.begun world.gate.ended

def onStore (world : World) (use : Store → Reply × World) : Reply × World :=
  match world.store with
  | none => (.notOpen, world)
  | some store => use store

def playStore (world : World) (store : Store) : StoreStep → Reply × World
  | .put code url owner => world.present (.put code url owner) fun _ => .done
  | .putBatch entries owner => world.present (.putBatch entries owner) fun _ => .done
  | .markDeleted codes owner => world.present (.markDeleted codes owner) fun _ => .done
  | .get code => world.present (.get code) .url
  | .findUrl url => world.present (.findUrl url) .code
  | .listByOwner owner => world.present (.listByOwner owner) .records
  | .stats => world.present .stats .stats
  | .probe deadline busy => world.present (.probe deadline busy) fun _ => .done
  | .shutdown => world.present .shutdown fun _ => .done
  | .race puts =>
      let (outcomes, next) := world.raceAll puts
      (.outcomes outcomes, next)
  | .size =>
      match store.backend with
      | .memory index => (.size index.size, world)
      | _ => (.unusable, world)
  | .journalPath =>
      match store.backend with
      | .journal path _ => (.path path (Backend.describeJournal path), world)
      | _ => (.unusable, world)
  | .migrate =>
      world.withDatabase fun database =>
        let (outcome, next) := database.migrate
        (.ofStore (fun _ => .done) outcome, next)
  | .upset what =>
      world.withDatabase fun database =>
        (.done, { database with file := what.apply database.file })

/-- Starting a pipeline lets go of the one before it. -/
def playPipeline (world : World) : PipelineStep → Reply × World
  | .start settings =>
      world.onStore fun _ =>
        let before := { world with pipeline := none }.release world.pipeline
        (.done, { before.addCrew settings with pipeline := some before.crews.length })
  | .accept request times =>
      world.onPipeline fun crew _ =>
        if times ≤ 1 then world.accept crew request
        else
          let (replies, next) := acceptAgain crew request times world
          (tallyOf replies, next)
  | .queued => world.onPipeline fun _ pipeline => (.queued pipeline.queued, world)
  | .close kind => world.onPipeline fun crew _ => world.close crew kind .close
  | .drop =>
      world.onPipeline fun crew _ =>
        (.done, { world with pipeline := none }.release (some crew))
  | .describe => world.onPipeline fun _ pipeline => (.description pipeline.describe, world)

/-- Starting a service lets go of the one before it. -/
def playService (world : World) : ServiceStep → Reply × World
  | .start settings codes =>
      world.onStore fun _ =>
        let before := { world with service := none }.release (world.service.map Prod.snd)
        (.done,
          (before.addCrew settings.deletion).setShortener
            ⟨codes, settings.baseUrl, settings.healthTimeout⟩ before.crews.length)
  | .shorten url owner =>
      world.onService fun shortener crew _ =>
        let (inquiry, next) := shortener.shorten url owner
        (world.setShortener next crew).ask inquiry .shortened
  | .shortenBatch items owner =>
      world.onService fun shortener crew _ =>
        let (inquiry, next) := shortener.shortenBatch items owner
        (world.setShortener next crew).ask inquiry .batchLinks
  | .resolve code => world.onService fun _ _ _ => world.ask (.resolve code) .url
  | .userUrls owner =>
      world.onService fun shortener _ _ =>
        world.ask (.userUrls shortener.baseUrl owner) .ownedLinks
  | .deleteUrls request => world.onService fun _ crew _ => world.accept crew request
  | .ping busy =>
      world.onService fun shortener _ _ =>
        world.ask (.ping shortener.healthTimeout busy) fun _ => .done
  | .stats => world.onService fun _ _ _ => world.ask .stats .stats
  | .queued => world.onService fun _ _ pipeline => (.queued pipeline.queued, world)
  | .describe =>
      world.onService fun shortener _ pipeline =>
        (.description (shortener.describe pipeline), world)
  | .storeGet code =>
      world.onService fun _ _ _ =>
        let (answer, next) := world.call (.get code)
        (.ofStore .url answer, next)
  | .close kind => world.onService fun _ crew _ => world.close crew kind .closeService

def playAround (world : World) : Circumstance → Reply × World
  | .reopen =>
      let (outcome, next) := world.reopen
      (.ofStore (fun _ => .done) outcome, next)
  | .log => (.log world.logText?, world)
  | .appendLog bytes => (.done, world.appendLog bytes)
  | .limitLog size => (.done, { world with limit := size })
  | .closeGate => (.done, { world with gate := world.gate.close })
  | .openGate permits =>
      let next := { world with gate := world.gate.letThrough permits }.settle
      (next.callCounts, next)
  | .calls => (world.callCounts, world)
  | .fault method cause =>
      (.done, { world with faults := world.faults ++ [(method, cause)] })
  | .crash => (.done, { world with gate := world.gate.orderCrash })
  | .tasks => (.tasks (world.tasks.map Task.answer), world)

def play (world : World) : Step → Reply × World
  | .store step => world.onStore fun store => world.playStore store step
  | .pipeline step => world.playPipeline step
  | .service step => world.playService step
  | .around step => world.playAround step

def scene (world : World) (step : Step) : Scene × World :=
  let (reply, next) := { world with notices := [] }.play step
  (⟨reply, next.notices⟩, { next with notices := [] })

def scenes (world : World) : List Step → List Scene
  | [] => []
  | step :: later =>
      let (played, next) := world.scene step
      played :: scenes next later

end World

def perform (plan : Plan) (folder : Folder) (steps : List Step) : Scene × List Scene :=
  match World.openPlan plan folder with
  | (.error cause, world) => (⟨.failed cause, world.notices⟩, [])
  | (.ok _, world) => (⟨.done, world.notices⟩, world.scenes steps)

end ShortLinks.Rehearsal
