import ShortLinks.Deletion.Request
import ShortLinks.Settings

/-!
# The deletion pipeline

A bounded queue of requests served by a fixed number of workers. One lock guards
the taking end of the queue. Workers that look for a request and closing calls
stand in line for it, and the head of the line holds it. A request needs a permit
before it is delivered to the queue; those that find none wait for one.

The parties run side by side. A move is one access of one of them to what all
share, with what it then does alone, and moves of others may come between any two
moves of one party. So a run of the pipeline is a list of moves, whatever the
order in which the parties come to run.
-/

namespace ShortLinks.Deletion

set_option autoImplicit false

/-- A `ready` worker looks whether it is told to stop. If not it is `cleared`, joins
the line, and tries the queue once it is its head (`poised`). If it finds nothing it
is suspended where it stands (`listening`), and looks again when it is woken. -/
inductive Phase
  | ready
  | cleared
  | poised
  | listening
  | applying (entry : Entry)
  | finished
  | crashed
  deriving DecidableEq, Repr

/-- A closing call has ended the intake when it begins. A stop then tells the workers
(`signalling`); every closing call takes the workers over, if nobody has, waits for
them one after the other, and then for the lock. -/
inductive Progress
  | signalling
  | summoning
  | joining (workers : List Nat)
  | inLine
  | returned
  deriving DecidableEq, Repr

structure Closer where
  kind : Closing
  progress : Progress
  deriving DecidableEq, Repr

inductive Party
  | worker (id : Nat)
  | closer (id : Nat)
  deriving DecidableEq, Repr

/-- Who will wait for the workers: the pipeline still has them, a closing call has
taken them over, or nobody will. -/
inductive Custody
  | kept
  | taken (closer : Nat)
  | dropped
  deriving DecidableEq, Repr

/-- The state of a pipeline. Requests wait for a permit, hold one, and are queued.
Closing ends the `intake`; `stopping` tells the workers to take nothing more; a queue
is `sealed` once a closing call has emptied it. -/
structure Pipeline where
  capacity : Nat
  workers : List Phase
  queue : List Entry
  granted : List Entry
  waiting : List Entry
  line : List Party
  issued : Nat
  intake : Bool
  stopping : Bool
  sealed : Bool
  custody : Custody
  closers : List Closer
  deriving DecidableEq, Repr

inductive Move
  -- the calling side
  | accept (request : Request)
  | close (kind : Closing)
  | abandon
  -- requests that have been brought
  | grant
  | deliver
  | refuse
  -- workers
  | look (worker : Nat)
  | listen (worker : Nat)
  | pause (worker : Nat)
  | wake (worker : Nat)
  | take (worker : Nat)
  | leave (worker : Nat)
  | finish (worker : Nat) (outcome : Outcome)
  -- closing calls
  | signal (closer : Nat)
  | takeOver (closer : Nat)
  | join (closer : Nat)
  | queueUp (closer : Nat)
  | discard (closer : Nat)
  deriving DecidableEq, Repr

namespace Pipeline

/-- A new pipeline. There is at least one worker, and room for one request. There is
no upper bound on the room here; a channel has one, far above what memory holds, and
a larger capacity is not one that a pipeline can be started with. -/
def start (settings : DeletionSettings) : Pipeline where
  capacity := max 1 settings.queueCapacity
  workers := List.replicate (max 1 settings.workers) .ready
  queue := []
  granted := []
  waiting := []
  line := []
  issued := 0
  intake := true
  stopping := false
  sealed := false
  custody := .kept
  closers := []

def startNotice (pipeline : Pipeline) : Notice :=
  .pipelineStarted pipeline.workers.length pipeline.capacity

/-- How many permits are in use; a closed pipeline shows none. A permit that is given
back passes at once to the request that has waited longest. -/
def queued (pipeline : Pipeline) : Nat :=
  if pipeline.intake then
    min pipeline.capacity
      (pipeline.queue.length + pipeline.granted.length + pipeline.waiting.length)
  else 0

def unjoined (pipeline : Pipeline) : Nat :=
  if pipeline.custody = .kept then pipeline.workers.length else 0

def describe (pipeline : Pipeline) : String :=
  "DeletionPipeline \x7b workers: " ++ toString pipeline.unjoined ++
    ", queued: " ++ toString pipeline.queued ++ ", .. \x7d"

def setWorker (pipeline : Pipeline) (worker : Nat) (phase : Phase) : Pipeline :=
  { pipeline with workers := pipeline.workers.set worker phase }

def setProgress (pipeline : Pipeline) (closer : Nat) (progress : Progress) : Pipeline :=
  { pipeline with
    closers := pipeline.closers.modify closer fun call => { call with progress } }

def progress? (pipeline : Pipeline) (closer : Nat) : Option Progress :=
  pipeline.closers[closer]?.map Closer.progress

/-- A call brings a request. An empty request is accepted at once, unless the pipeline
is closed; any other waits for a permit. A call begins when it joins the line for
permits: that it has found the intake open before is part of the same move. -/
def accept (pipeline : Pipeline) (request : Request) : Pipeline × List Event :=
  let entry : Entry := ⟨pipeline.issued, request⟩
  let counted := { pipeline with issued := pipeline.issued + 1 }
  if !pipeline.intake then (counted, [.asked entry, .refused entry])
  else if request.codes = [] then (counted, [.asked entry, .accepted entry])
  else ({ counted with waiting := pipeline.waiting ++ [entry] }, [.asked entry])

-- Calls get their permits, and deliver, in the order in which they joined the line.

def grant? (pipeline : Pipeline) : Option (Pipeline × List Event) :=
  match pipeline.waiting with
  | [] => none
  | entry :: later =>
      if pipeline.sealed ||
          pipeline.capacity ≤ pipeline.queue.length + pipeline.granted.length then none
      else
        some ({ pipeline with waiting := later, granted := pipeline.granted ++ [entry] }, [])

/-- A request that holds a permit is delivered, even to a sealed queue. -/
def deliver? (pipeline : Pipeline) : Option (Pipeline × List Event) :=
  match pipeline.granted with
  | [] => none
  | entry :: later =>
      some ({ pipeline with granted := later, queue := pipeline.queue ++ [entry] },
        [.accepted entry])

def refuse? (pipeline : Pipeline) : Option (Pipeline × List Event) :=
  match pipeline.waiting with
  | [] => none
  | entry :: later =>
      if pipeline.sealed then
        some ({ pipeline with waiting := later }, [.refused entry])
      else none

/-- No request is queued, and none can come any more: the queue is sealed, or nobody
is left who could bring one. -/
def exhausted (pipeline : Pipeline) : Bool :=
  pipeline.queue.isEmpty && pipeline.granted.isEmpty &&
    (pipeline.sealed || (!pipeline.intake && pipeline.waiting.isEmpty))

def finds (pipeline : Pipeline) (worker : Nat) : Bool :=
  pipeline.line.head? == some (.worker worker) &&
    (!pipeline.queue.isEmpty || pipeline.exhausted)

/-- A worker sees that it is not told to stop. One that is suspended looks when there
is something for it to find. -/
def look? (pipeline : Pipeline) (worker : Nat) : Option (Pipeline × List Event) :=
  if pipeline.stopping then none
  else
    match pipeline.workers[worker]? with
    | some .ready => some (pipeline.setWorker worker .cleared, [])
    | some .listening =>
        if pipeline.finds worker then some (pipeline.setWorker worker .poised, []) else none
    | _ => none

def listen? (pipeline : Pipeline) (worker : Nat) : Option (Pipeline × List Event) :=
  if pipeline.workers[worker]? = some .cleared then
    let heard := pipeline.setWorker worker .poised
    some ({ heard with line := pipeline.line ++ [.worker worker] }, [])
  else none

def pause? (pipeline : Pipeline) (worker : Nat) : Option (Pipeline × List Event) :=
  if pipeline.workers[worker]? = some .poised ∧ !pipeline.finds worker then
    some (pipeline.setWorker worker .listening, [])
  else none

/-- A suspended worker looks although there is nothing to find. This can happen at any
time, so nothing is built on it. -/
def wake? (pipeline : Pipeline) (worker : Nat) : Option (Pipeline × List Event) :=
  if pipeline.workers[worker]? = some .listening ∧ !pipeline.stopping then
    some (pipeline.setWorker worker .poised, [])
  else none

/-- The worker at the head of the line takes the oldest queued request, and the lock
is free again. It has looked before, and does not look now. -/
def take? (pipeline : Pipeline) (worker : Nat) : Option (Pipeline × List Event) :=
  match pipeline.line, pipeline.queue with
  | .worker head :: behind, entry :: later =>
      if head = worker ∧ pipeline.workers[worker]? = some .poised then
        let taken := pipeline.setWorker worker (.applying entry)
        some ({ taken with line := behind, queue := later }, [.began worker entry])
      else none
  | _, _ => none

/-- A worker ends: when it sees that it is told to stop, or when it holds the lock and
no request can come any more. -/
def leave? (pipeline : Pipeline) (worker : Nat) : Option (Pipeline × List Event) :=
  let gone := pipeline.setWorker worker .finished
  let unlined := { gone with line := pipeline.line.erase (.worker worker) }
  match pipeline.workers[worker]? with
  | some .ready => if pipeline.stopping then some (gone, []) else none
  | some .listening => if pipeline.stopping then some (unlined, []) else none
  | some .poised =>
      if pipeline.line.head? = some (.worker worker) && pipeline.exhausted then
        some (unlined, [])
      else none
  | _ => none

def finish? (pipeline : Pipeline) (worker : Nat) (outcome : Outcome) :
    Option (Pipeline × List Event) :=
  match pipeline.workers[worker]? with
  | some (.applying entry) =>
      let next := if outcome = .panicked then Phase.crashed else .ready
      some (pipeline.setWorker worker next, [.ended worker entry outcome])
  | _ => none

def close (pipeline : Pipeline) (kind : Closing) : Pipeline × List Event :=
  let progress := if kind = .stop then Progress.signalling else .summoning
  ({ pipeline with intake := false, closers := pipeline.closers ++ [⟨kind, progress⟩] },
    [.closing pipeline.closers.length kind])

def signal? (pipeline : Pipeline) (closer : Nat) : Option (Pipeline × List Event) :=
  match pipeline.progress? closer with
  | some .signalling =>
      some ({ pipeline.setProgress closer .summoning with stopping := true }, [])
  | _ => none

def takeOver? (pipeline : Pipeline) (closer : Nat) : Option (Pipeline × List Event) :=
  match pipeline.progress? closer with
  | some .summoning =>
      if pipeline.custody = .kept then
        let all := List.range pipeline.workers.length
        some ({ pipeline.setProgress closer (.joining all) with custody := .taken closer }, [])
      else some (pipeline.setProgress closer (.joining []), [])
  | _ => none

def join? (pipeline : Pipeline) (closer : Nat) : Option (Pipeline × List Event) :=
  match pipeline.progress? closer with
  | some (.joining (worker :: rest)) =>
      let joined := pipeline.setProgress closer (.joining rest)
      match pipeline.workers[worker]? with
      | some .finished => some (joined, [.joined closer worker false])
      | some .crashed => some (joined, [.joined closer worker true])
      | _ => none
  | _ => none

def queueUp? (pipeline : Pipeline) (closer : Nat) : Option (Pipeline × List Event) :=
  match pipeline.progress? closer with
  | some (.joining []) =>
      let ready := pipeline.setProgress closer .inLine
      some ({ ready with line := pipeline.line ++ [.closer closer] }, [])
  | _ => none

/-- A closing call that holds the lock seals the queue, takes out what is in it, and
returns. Nobody else takes from the queue while it does. So this is one move, the last
look into the queue: what is delivered before it is taken out, and what still holds a
permit stays behind. -/
def discard? (pipeline : Pipeline) (closer : Nat) : Option (Pipeline × List Event) :=
  match pipeline.line, pipeline.closers[closer]? with
  | .closer head :: behind, some ⟨kind, .inLine⟩ =>
      if head = closer then
        let done := pipeline.setProgress closer .returned
        some ({ done with line := behind, queue := [], sealed := true },
          [.discarded closer pipeline.queue, .closed closer kind])
      else none
  | _, _ => none

def uncalled (pipeline : Pipeline) : Bool :=
  pipeline.waiting.isEmpty && pipeline.granted.isEmpty &&
    pipeline.closers.all fun call => call.progress == .returned

/-- The last user lets go of the pipeline. Its workers stop after the request they are
applying, and nobody hears of what is queued. -/
def abandon? (pipeline : Pipeline) : Option (Pipeline × List Event) :=
  let custody := if pipeline.custody = .kept then .dropped else pipeline.custody
  if pipeline.uncalled then
    some ({ pipeline with intake := false, stopping := true, custody }, [])
  else none

def move? (pipeline : Pipeline) : Move → Option (Pipeline × List Event)
  | .accept request => some (pipeline.accept request)
  | .close kind => some (pipeline.close kind)
  | .abandon => pipeline.abandon?
  | .grant => pipeline.grant?
  | .deliver => pipeline.deliver?
  | .refuse => pipeline.refuse?
  | .look worker => pipeline.look? worker
  | .listen worker => pipeline.listen? worker
  | .pause worker => pipeline.pause? worker
  | .wake worker => pipeline.wake? worker
  | .take worker => pipeline.take? worker
  | .leave worker => pipeline.leave? worker
  | .finish worker outcome => pipeline.finish? worker outcome
  | .signal closer => pipeline.signal? closer
  | .takeOver closer => pipeline.takeOver? closer
  | .join closer => pipeline.join? closer
  | .queueUp closer => pipeline.queueUp? closer
  | .discard closer => pipeline.discard? closer

def run? : List Move → Pipeline → Option (Pipeline × List Event)
  | [], pipeline => some (pipeline, [])
  | move :: moves, pipeline =>
      match pipeline.move? move with
      | none => none
      | some (next, events) =>
          match run? moves next with
          | none => none
          | some (last, later) => some (last, events ++ later)

end Pipeline

end ShortLinks.Deletion
