import ShortLinks.Deletion.Schedule
import ShortLinks.Rehearsal.Gate
import ShortLinks.Rehearsal.Step
import ShortLinks.Storage

/-!
# The world of a rehearsal

A store on a folder, with the pipelines and the service that work on it. Pipelines
and service reach the store past planned faults, and deletion calls past the gate.
After each step everything runs until nothing moves. Calls that have not come back
by then are tasks.
-/

namespace ShortLinks.Rehearsal

set_option autoImplicit false

inductive Plan
  | memory
  | journal (path : String)
  | database (path : String)
  | chosen (settings : StorageSettings)
  deriving DecidableEq, Repr

def root : String := "\x7bdir\x7d"

def journalName : String := "links.json"

def databaseName : String := "links.db"

def pathOf (name : String) : String := root ++ "/" ++ name

namespace Plan

def openIn (folder : Folder) : Plan → Opened
  | memory => ⟨.ok Store.inMemory, folder, []⟩
  | journal path => Store.openJournal folder path
  | database path => Store.openDatabase folder ⟨path, false, false⟩
  | chosen settings => Store.openChosen folder settings

end Plan

/-- A pipeline of the rehearsal. It is let go of once it is not held any more. -/
structure Crew where
  pipeline : Deletion.Pipeline
  held : Bool
  deriving DecidableEq, Repr

/-- A call that comes back once its pipeline answers it. Closing a service closes
the store too before it comes back. -/
inductive Call
  | accept (crew ticket : Nat)
  | close (crew closer : Nat)
  | closeService (crew closer : Nat)
  deriving DecidableEq, Repr

structure Task where
  call : Call
  answer : Option Reply

structure World where
  plan : Plan
  folder : Folder
  store : Option Store
  limit : Option Nat
  gate : Gate
  faults : List (StoreMethod × StorageError)
  crews : List Crew
  pipeline : Option Nat
  service : Option (Shortener × Nat)
  tasks : List Task
  notices : List Notice

namespace World

def openPlan (plan : Plan) (folder : Folder) : Except StorageError Unit × World :=
  let opened := plan.openIn folder
  (opened.outcome.map fun _ => (),
    { plan
      folder := opened.folder
      store := opened.outcome.toOption
      limit := none
      gate := .wideOpen
      faults := []
      crews := []
      pipeline := none
      service := none
      tasks := []
      notices := opened.notices })

/-- Opens the plan again. Pipelines, service, gate and faults are gone; a task that
has no answer yet never gets one. -/
def reopen (world : World) : Except StorageError Unit × World :=
  let opened := world.plan.openIn world.folder
  (opened.outcome.map fun _ => (),
    { world with
      folder := opened.folder
      store := opened.outcome.toOption
      gate := .wideOpen
      faults := []
      pipeline := none
      service := none
      notices := world.notices ++ opened.notices })

def note (world : World) (notices : List Notice) : World :=
  { world with notices := world.notices ++ notices }

def disk (world : World) : Disk :=
  match world.limit with
  | none => .roomy
  | some size => .limited size

/-- A call that goes to the store itself. What it keeps is on the disk afterwards. -/
def perform {α : Type} (world : World) (call : StoreCall α) :
    Except StorageError α × World :=
  match world.store with
  | none => (.error (.unavailable "no store is open"), world)
  | some store =>
      let (answer, next, notices) := store.perform world.disk call
      (answer,
        { world with store := some next, folder := next.save world.folder }.note notices)

/-- The first fault planned for a method, and the faults without it. -/
def takeFault (method : StoreMethod) : List (StoreMethod × StorageError) →
    Option (StorageError × List (StoreMethod × StorageError))
  | [] => none
  | (planned, cause) :: faults =>
      if planned = method then some (cause, faults)
      else (takeFault method faults).map fun (found, rest) => (found, (planned, cause) :: rest)

/-- A call of a pipeline or a service: a fault planned for it answers in place of
the store. -/
def call {α : Type} (world : World) (request : StoreCall α) :
    Except StorageError α × World :=
  match takeFault request.method world.faults with
  | some (cause, faults) => (.error cause, { world with faults })
  | none => world.perform request

def inquire {α : Type} (world : World) (inquiry : Inquiry α) :
    Except ServiceError α × World :=
  inquiry.run (fun request state => state.call request) world

def answerTasks (world : World) (call : Call) (reply : Reply) : World :=
  { world with
    tasks := world.tasks.map fun task =>
      if task.call = call ∧ task.answer.isNone then { task with answer := some reply } else task }

def awaits (world : World) (call : Call) : Bool :=
  world.tasks.any fun task => task.call == call && task.answer.isNone

def finishService (world : World) (call : Call) : World :=
  let (outcome, closed) := world.inquire .closeStore
  let noted :=
    match outcome with
    | .ok _ => closed.note [.serviceStopped]
    | .error _ => closed
  noted.answerTasks call (.ofService (fun _ => .done) outcome)

/-- What an event of a pipeline means for the rest of the world. -/
def absorb (world : World) (crew : Nat) (event : Deletion.Event) : World :=
  let noted := world.note event.notices
  match event with
  | .began worker _ => { noted with gate := noted.gate.arrive ⟨crew, worker⟩ }
  | .ended _ _ _ => { noted with gate := noted.gate.leave }
  | .accepted entry => noted.answerTasks (.accept crew entry.ticket) .done
  | .refused entry => noted.answerTasks (.accept crew entry.ticket) (.refused .pipelineClosed)
  | .closed closer _ =>
      let served := Call.closeService crew closer
      if noted.awaits served then noted.finishService served
      else noted.answerTasks (.close crew closer) .done
  | _ => noted

def absorbAll (world : World) (crew : Nat) (events : List Deletion.Event) : World :=
  events.foldl (fun current event => current.absorb crew event) world

def setCrew (world : World) (crew : Nat) (next : Crew) : World :=
  { world with crews := world.crews.set crew next }

def change (world : World) (crew : Nat)
    (move : Deletion.Pipeline → Option (Deletion.Pipeline × List Deletion.Event)) : World :=
  match world.crews[crew]? with
  | none => world
  | some found =>
      match move found.pipeline with
      | none => world
      | some (pipeline, events) =>
          (world.setCrew crew { found with pipeline }).absorbAll crew events

/-- Runs a pipeline until it is quiet, and lets go of it if nobody holds it. -/
def settleCrew (world : World) (crew : Nat) : World :=
  let quiet := world.change crew fun pipeline => some pipeline.settle
  match quiet.crews[crew]? with
  | some ⟨_, false⟩ =>
      (quiet.change crew Deletion.Pipeline.abandon?).change crew
        fun pipeline => some pipeline.settle
  | _ => quiet

def settleCrews (world : World) : World :=
  (List.range world.crews.length).foldl settleCrew world

def requestOf? (world : World) (caller : Caller) : Option Deletion.Request := do
  let crew ← world.crews[caller.crew]?
  let phase ← crew.pipeline.workers[caller.worker]?
  let entry ← phase.entry?
  return entry.request

def applyRequest (world : World) (request : Deletion.Request) :
    Deletion.Outcome × World :=
  match world.call (.markDeleted request.codes request.owner) with
  | (.ok _, next) => (.applied, next)
  | (.error cause, next) => (.failed cause, next)

def passGate? (world : World) : Option World := do
  let (caller, crashes, gate) ← world.gate.pass?
  let request ← world.requestOf? caller
  let passed := { world with gate }
  let (outcome, next) := if crashes then (.panicked, passed) else passed.applyRequest request
  return next.change caller.crew fun pipeline => pipeline.finish? caller.worker outcome

def settleWithin : Nat → World → World
  | 0, world => world
  | fuel + 1, world =>
      let quiet := world.settleCrews
      match quiet.passGate? with
      | none => quiet
      | some next => settleWithin fuel next

def settle (world : World) : World :=
  settleWithin (Deletion.addUp (world.crews.map fun crew => crew.pipeline.weight) + 1) world

/-- The answer of the newest call, if it has come back; else it stays a task. -/
def collect (world : World) : Reply × World :=
  match world.tasks.getLast? with
  | some ⟨_, some reply⟩ => (reply, { world with tasks := world.tasks.dropLast })
  | _ => (.task (world.tasks.length - 1), world)

/-- Begins a call on a pipeline and runs everything until nothing moves. -/
def begin (world : World) (crew : Nat) (call : Deletion.Pipeline → Call)
    (move : Deletion.Pipeline → Deletion.Pipeline × List Deletion.Event) : Reply × World :=
  match world.crews[crew]? with
  | none => (.unusable, world)
  | some found =>
      let task : Task := ⟨call found.pipeline, none⟩
      let waiting := { world with tasks := world.tasks ++ [task] }
      (waiting.change crew fun pipeline => some (move pipeline)).settle.collect

def accept (world : World) (crew : Nat) (request : Deletion.Request) : Reply × World :=
  world.begin crew (fun pipeline => .accept crew pipeline.issued)
    fun pipeline => pipeline.accept request

def close (world : World) (crew : Nat) (kind : Deletion.Closing)
    (call : Nat → Nat → Call) : Reply × World :=
  world.begin crew (fun pipeline => call crew pipeline.closers.length)
    fun pipeline => pipeline.close kind

def addCrew (world : World) (settings : DeletionSettings) : World :=
  let crew : Crew := ⟨.start settings, true⟩
  let staffed := { world with crews := world.crews ++ [crew] }
  (staffed.note [crew.pipeline.startNotice]).settle

def release (world : World) : Option Nat → World
  | none => world
  | some crew =>
      match world.crews[crew]? with
      | none => world
      | some found => (world.setCrew crew { found with held := false }).settle

end World

end ShortLinks.Rehearsal
