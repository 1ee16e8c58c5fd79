import ShortLinks.Deletion.Pipeline

/-!
# A schedule

One order of moves out of the many that are possible. All moves that need nothing
from outside are made first, until the pipeline is quiet: every party goes on as far
as it can before the next one does, and workers go before closing calls. Then the
calls in progress may end. Every such move makes the work that is left smaller, so
the schedule comes to an end.
-/

namespace ShortLinks.Deletion

set_option autoImplicit false

def addUp (sizes : List Nat) : Nat := sizes.foldr (· + ·) 0

namespace Phase

def weight : Phase → Nat
  | listening => 4
  | poised => 5
  | cleared => 8
  | ready => 11
  | applying _ => 14
  | finished | crashed => 0

def entry? : Phase → Option Entry
  | applying entry => some entry
  | _ => none

end Phase

def Progress.weight : Progress → Nat
  | signalling => 15
  | summoning => 12
  | joining workers => 3 * workers.length + 9
  | inLine => 6
  | returned => 0

namespace Pipeline

/-- Whether the head of the line is suspended although there is something to find. -/
def stirred (pipeline : Pipeline) : Bool :=
  match pipeline.line with
  | .worker worker :: _ =>
      pipeline.workers[worker]? == some .listening && pipeline.finds worker
  | _ => false

def bulk (pipeline : Pipeline) : Nat :=
  18 * pipeline.waiting.length + 15 * pipeline.granted.length + 12 * pipeline.queue.length +
    addUp (pipeline.workers.map Phase.weight) +
    addUp (pipeline.closers.map fun call => call.progress.weight) + 3 * pipeline.unjoined

/-- A bound on the moves that are left while nothing new is asked for. -/
def weight (pipeline : Pipeline) : Nat := pipeline.bulk + if pipeline.stirred then 2 else 0

def headMoves (pipeline : Pipeline) : List Move :=
  match pipeline.line with
  | [] => []
  | .worker worker :: _ => [.take worker, .look worker]
  | .closer closer :: _ => [.discard closer]

/-- The moves that need nothing from outside, the most urgent first. -/
def ownMoves (pipeline : Pipeline) : List Move :=
  let workers := List.range pipeline.workers.length
  let closers := List.range pipeline.closers.length
  closers.map .signal ++ closers.map .takeOver ++ [.deliver, .grant, .refuse] ++
    workers.map .leave ++ pipeline.headMoves ++ workers.map .pause ++ workers.map .listen ++
    workers.map .look ++ closers.map .join ++ closers.map .queueUp

def ownMove? (pipeline : Pipeline) : Option (Pipeline × List Event) :=
  pipeline.ownMoves.findSome? pipeline.move?

def settleWithin : Nat → Pipeline → Pipeline × List Event
  | 0, pipeline => (pipeline, [])
  | fuel + 1, pipeline =>
      match pipeline.ownMove? with
      | none => (pipeline, [])
      | some (next, events) =>
          let (last, later) := settleWithin fuel next
          (last, events ++ later)

/-- Runs the pipeline until nothing moves but by the end of a call in progress. -/
def settle (pipeline : Pipeline) : Pipeline × List Event :=
  pipeline.settleWithin pipeline.weight

def inProgress (pipeline : Pipeline) : List (Nat × Entry) :=
  pipeline.workers.zipIdx.filterMap fun (phase, worker) =>
    phase.entry?.map fun entry => (worker, entry)

def older (best : Option (Nat × Entry)) (next : Nat × Entry) : Option (Nat × Entry) :=
  match best with
  | none => some next
  | some chosen => if next.2.ticket < chosen.2.ticket then some next else some chosen

def oldest? (pipeline : Pipeline) : Option (Nat × Entry) :=
  pipeline.inProgress.foldl older none

def runWithin {σ : Type} (apply : Request → σ → Outcome × σ) :
    Nat → Pipeline → σ → Pipeline × List Event × σ
  | 0, pipeline, state => (pipeline, [], state)
  | fuel + 1, pipeline, state =>
      let (quiet, events) := pipeline.settle
      match quiet.oldest? with
      | none => (quiet, events, state)
      | some (worker, entry) =>
          let (outcome, changed) := apply entry.request state
          match quiet.finish? worker outcome with
          | none => (quiet, events, changed)
          | some (next, ended) =>
              let (last, later, final) := runWithin apply fuel next changed
              (last, events ++ ended ++ later, final)

/-- Runs the pipeline until nothing moves at all. Each request is applied to the
state outside as its turn comes. -/
def run {σ : Type} (apply : Request → σ → Outcome × σ) (pipeline : Pipeline) (state : σ) :
    Pipeline × List Event × σ :=
  runWithin apply (pipeline.weight + 1) pipeline state

end Pipeline

end ShortLinks.Deletion
