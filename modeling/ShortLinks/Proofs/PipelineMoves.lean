import ShortLinks.Deletion.Pipeline

/-!
# What a move can do

Each move of a pipeline, with the state in which it is possible, the state it leads to and
what happens in it. Invariants of a pipeline are proved by going through this list once, and
hold after every run that begins where they hold.
-/

namespace ShortLinks.Deletion

set_option autoImplicit false

/-- The step of a worker, of a request that was brought, or of a closing call. A suspended worker
that is woken for nothing is none: it would only go to sleep again. -/
def Move.own : Move → Bool
  | grant | deliver | refuse | look _ | listen _ | pause _ | take _ | leave _ | signal _
  | takeOver _ | join _ | queueUp _ | discard _ => true
  | accept _ | close _ | abandon | wake _ | finish _ _ => false

/-- A step or the end of a call: what goes on when nothing new is asked for. -/
def Move.inner : Move → Bool
  | finish _ _ => true
  | move => move.own

/-- The moves of a request that finds a permit at once. -/
def brings (request : Request) : List Move := [.accept request, .grant, .deliver]

/-- The moves of a worker that finds a request at once. -/
def takes (worker : Nat) : List Move := [.look worker, .listen worker, .take worker]

theorem Move.inner_of_own {move : Move} (own : move.own = true) : move.inner = true := by
  cases move with
  | finish => rfl
  | _ => exact own

namespace Pipeline

/-- The move is possible, and leads to the next state with these events. -/
inductive Moved (pipeline : Pipeline) : Move → Pipeline → List Event → Prop
  | turnAway (request : Request) (shut : pipeline.intake = false) :
      Moved pipeline (.accept request) { pipeline with issued := pipeline.issued + 1 }
        [.asked ⟨pipeline.issued, request⟩, .refused ⟨pipeline.issued, request⟩]
  | passOver (request : Request) (taking : pipeline.intake = true) (empty : request.codes = []) :
      Moved pipeline (.accept request) { pipeline with issued := pipeline.issued + 1 }
        [.asked ⟨pipeline.issued, request⟩, .accepted ⟨pipeline.issued, request⟩]
  | bring (request : Request) (taking : pipeline.intake = true) (filled : request.codes ≠ []) :
      Moved pipeline (.accept request)
        { pipeline with
          issued := pipeline.issued + 1
          waiting := pipeline.waiting ++ [⟨pipeline.issued, request⟩] }
        [.asked ⟨pipeline.issued, request⟩]
  | close (kind : Closing) :
      Moved pipeline (.close kind)
        { pipeline with
          intake := false
          closers := pipeline.closers ++
            [⟨kind, if kind = .stop then .signalling else .summoning⟩] }
        [.closing pipeline.closers.length kind]
  | abandon (uncalled : pipeline.uncalled = true) :
      Moved pipeline .abandon
        { pipeline with
          intake := false
          stopping := true
          custody := if pipeline.custody = .kept then .dropped else pipeline.custody }
        []
  | grant {entry : Entry} {later : List Entry} (waits : pipeline.waiting = entry :: later)
      (unsealed : pipeline.sealed = false)
      (room : pipeline.queue.length + pipeline.granted.length < pipeline.capacity) :
      Moved pipeline .grant
        { pipeline with waiting := later, granted := pipeline.granted ++ [entry] } []
  | deliver {entry : Entry} {later : List Entry} (holds : pipeline.granted = entry :: later) :
      Moved pipeline .deliver
        { pipeline with granted := later, queue := pipeline.queue ++ [entry] }
        [.accepted entry]
  | refuse {entry : Entry} {later : List Entry} (waits : pipeline.waiting = entry :: later)
      (shut : pipeline.sealed = true) :
      Moved pipeline .refuse { pipeline with waiting := later } [.refused entry]
  | look {worker : Nat} (ready : pipeline.workers[worker]? = some .ready)
      (going : pipeline.stopping = false) :
      Moved pipeline (.look worker)
        { pipeline with workers := pipeline.workers.set worker .cleared } []
  | lookAgain {worker : Nat} (listening : pipeline.workers[worker]? = some .listening)
      (going : pipeline.stopping = false) (finds : pipeline.finds worker = true) :
      Moved pipeline (.look worker)
        { pipeline with workers := pipeline.workers.set worker .poised } []
  | listen {worker : Nat} (cleared : pipeline.workers[worker]? = some .cleared) :
      Moved pipeline (.listen worker)
        { pipeline with
          workers := pipeline.workers.set worker .poised
          line := pipeline.line ++ [.worker worker] }
        []
  | pause {worker : Nat} (poised : pipeline.workers[worker]? = some .poised)
      (nothing : pipeline.finds worker = false) :
      Moved pipeline (.pause worker)
        { pipeline with workers := pipeline.workers.set worker .listening } []
  | wake {worker : Nat} (listening : pipeline.workers[worker]? = some .listening)
      (going : pipeline.stopping = false) :
      Moved pipeline (.wake worker)
        { pipeline with workers := pipeline.workers.set worker .poised } []
  | take {worker : Nat} {entry : Entry} {behind : List Party} {later : List Entry}
      (head : pipeline.line = .worker worker :: behind) (queued : pipeline.queue = entry :: later)
      (poised : pipeline.workers[worker]? = some .poised) :
      Moved pipeline (.take worker)
        { pipeline with
          workers := pipeline.workers.set worker (.applying entry)
          line := behind
          queue := later }
        [.began worker entry]
  | leaveReady {worker : Nat} (ready : pipeline.workers[worker]? = some .ready)
      (told : pipeline.stopping = true) :
      Moved pipeline (.leave worker)
        { pipeline with workers := pipeline.workers.set worker .finished } []
  | leaveListening {worker : Nat} (listening : pipeline.workers[worker]? = some .listening)
      (told : pipeline.stopping = true) :
      Moved pipeline (.leave worker)
        { pipeline with
          workers := pipeline.workers.set worker .finished
          line := pipeline.line.erase (.worker worker) }
        []
  | leavePoised {worker : Nat} (poised : pipeline.workers[worker]? = some .poised)
      (head : pipeline.line.head? = some (.worker worker)) (none : pipeline.exhausted = true) :
      Moved pipeline (.leave worker)
        { pipeline with
          workers := pipeline.workers.set worker .finished
          line := pipeline.line.erase (.worker worker) }
        []
  | finish {worker : Nat} {entry : Entry} (outcome : Outcome)
      (applying : pipeline.workers[worker]? = some (.applying entry)) :
      Moved pipeline (.finish worker outcome)
        { pipeline with
          workers := pipeline.workers.set worker
            (if outcome = .panicked then Phase.crashed else .ready) }
        [.ended worker entry outcome]
  | signal {closer : Nat} (due : pipeline.progress? closer = some .signalling) :
      Moved pipeline (.signal closer)
        { pipeline.setProgress closer .summoning with stopping := true } []
  | takeOver {closer : Nat} (due : pipeline.progress? closer = some .summoning)
      (kept : pipeline.custody = .kept) :
      Moved pipeline (.takeOver closer)
        { pipeline.setProgress closer (.joining (List.range pipeline.workers.length)) with
          custody := .taken closer }
        []
  | comeLate {closer : Nat} (due : pipeline.progress? closer = some .summoning)
      (late : pipeline.custody ≠ .kept) :
      Moved pipeline (.takeOver closer) (pipeline.setProgress closer (.joining [])) []
  | join {closer worker : Nat} {rest : List Nat} (crashed : Bool)
      (next : pipeline.progress? closer = some (.joining (worker :: rest)))
      (ended : pipeline.workers[worker]? = some (if crashed then .crashed else .finished)) :
      Moved pipeline (.join closer) (pipeline.setProgress closer (.joining rest))
        [.joined closer worker crashed]
  | queueUp {closer : Nat} (all : pipeline.progress? closer = some (.joining [])) :
      Moved pipeline (.queueUp closer)
        { pipeline.setProgress closer .inLine with line := pipeline.line ++ [.closer closer] } []
  | discard {closer : Nat} {kind : Closing} {behind : List Party}
      (head : pipeline.line = .closer closer :: behind)
      (called : pipeline.closers[closer]? = some ⟨kind, .inLine⟩) :
      Moved pipeline (.discard closer)
        { pipeline.setProgress closer .returned with line := behind, queue := [], sealed := true }
        [.discarded closer pipeline.queue, .closed closer kind]

variable {pipeline next : Pipeline} {events : List Event}

theorem moved_accept (pipeline : Pipeline) (request : Request) :
    Moved pipeline (.accept request) (pipeline.accept request).1
      (pipeline.accept request).2 := by
  unfold accept
  simp only
  split
  · rename_i shut
    exact .turnAway request (by simpa using shut)
  · rename_i taking
    have taken : pipeline.intake = true := by simpa using taking
    split
    · rename_i empty
      exact .passOver request taken empty
    · rename_i filled
      exact .bring request taken filled

theorem moved_abandon (moved : pipeline.abandon? = some (next, events)) :
    Moved pipeline .abandon next events := by
  unfold abandon? at moved
  simp only at moved
  split at moved
  · rename_i uncalled
    cases moved
    exact .abandon uncalled
  · cases moved

theorem moved_grant (moved : pipeline.grant? = some (next, events)) :
    Moved pipeline .grant next events := by
  unfold grant? at moved
  split at moved
  · cases moved
  · rename_i entry later waits
    split at moved
    · cases moved
    · rename_i able
      cases moved
      simp only [Bool.or_eq_true, decide_eq_true_eq, not_or, Bool.not_eq_true] at able
      exact .grant waits able.1 (Nat.lt_of_not_le able.2)

theorem moved_deliver (moved : pipeline.deliver? = some (next, events)) :
    Moved pipeline .deliver next events := by
  unfold deliver? at moved
  split at moved
  · cases moved
  · rename_i entry later holds
    cases moved
    exact .deliver holds

theorem moved_refuse (moved : pipeline.refuse? = some (next, events)) :
    Moved pipeline .refuse next events := by
  unfold refuse? at moved
  split at moved
  · cases moved
  · rename_i entry later waits
    split at moved
    · rename_i shut
      cases moved
      exact .refuse waits shut
    · cases moved

theorem moved_look {worker : Nat} (moved : pipeline.look? worker = some (next, events)) :
    Moved pipeline (.look worker) next events := by
  unfold look? at moved
  split at moved
  · cases moved
  · rename_i untold
    have going : pipeline.stopping = false := by simpa using untold
    split at moved
    · rename_i ready
      cases moved
      exact .look ready going
    · rename_i listening
      split at moved
      · rename_i finds
        cases moved
        exact .lookAgain listening going finds
      · cases moved
    · cases moved

theorem moved_listen {worker : Nat} (moved : pipeline.listen? worker = some (next, events)) :
    Moved pipeline (.listen worker) next events := by
  unfold listen? at moved
  split at moved
  · rename_i cleared
    cases moved
    exact .listen cleared
  · cases moved

theorem moved_pause {worker : Nat} (moved : pipeline.pause? worker = some (next, events)) :
    Moved pipeline (.pause worker) next events := by
  unfold pause? at moved
  split at moved
  · rename_i able
    cases moved
    exact .pause able.1 (by simpa using able.2)
  · cases moved

theorem moved_wake {worker : Nat} (moved : pipeline.wake? worker = some (next, events)) :
    Moved pipeline (.wake worker) next events := by
  unfold wake? at moved
  split at moved
  · rename_i able
    cases moved
    exact .wake able.1 (by simpa using able.2)
  · cases moved

theorem moved_take {worker : Nat} (moved : pipeline.take? worker = some (next, events)) :
    Moved pipeline (.take worker) next events := by
  unfold take? at moved
  split at moved
  · rename_i head behind entry later lined queued
    split at moved
    · rename_i able
      rcases able with ⟨rfl, poised⟩
      cases moved
      exact .take lined queued poised
    · cases moved
  · cases moved

theorem moved_leave {worker : Nat} (moved : pipeline.leave? worker = some (next, events)) :
    Moved pipeline (.leave worker) next events := by
  unfold leave? at moved
  simp only at moved
  split at moved
  · rename_i ready
    split at moved
    · rename_i told
      cases moved
      exact .leaveReady ready told
    · cases moved
  · rename_i listening
    split at moved
    · rename_i told
      cases moved
      exact .leaveListening listening told
    · cases moved
  · rename_i poised
    split at moved
    · rename_i reason
      cases moved
      simp only [Bool.and_eq_true, decide_eq_true_eq] at reason
      exact .leavePoised poised reason.1 reason.2
    · cases moved
  · cases moved

theorem moved_finish {worker : Nat} {outcome : Outcome}
    (moved : pipeline.finish? worker outcome = some (next, events)) :
    Moved pipeline (.finish worker outcome) next events := by
  unfold finish? at moved
  split at moved
  · rename_i entry applying
    cases moved
    exact .finish outcome applying
  · cases moved

theorem moved_signal {closer : Nat} (moved : pipeline.signal? closer = some (next, events)) :
    Moved pipeline (.signal closer) next events := by
  unfold signal? at moved
  split at moved
  · rename_i due
    cases moved
    exact .signal due
  · cases moved

theorem moved_takeOver {closer : Nat}
    (moved : pipeline.takeOver? closer = some (next, events)) :
    Moved pipeline (.takeOver closer) next events := by
  unfold takeOver? at moved
  split at moved
  · rename_i due
    split at moved
    · rename_i kept
      cases moved
      exact .takeOver due kept
    · rename_i late
      cases moved
      exact .comeLate due late
  · cases moved

theorem moved_join {closer : Nat} (moved : pipeline.join? closer = some (next, events)) :
    Moved pipeline (.join closer) next events := by
  unfold join? at moved
  split at moved
  · rename_i worker rest following
    simp only at moved
    split at moved
    · rename_i ended
      cases moved
      exact .join false following ended
    · rename_i ended
      cases moved
      exact .join true following ended
    · cases moved
  · cases moved

theorem moved_queueUp {closer : Nat} (moved : pipeline.queueUp? closer = some (next, events)) :
    Moved pipeline (.queueUp closer) next events := by
  unfold queueUp? at moved
  split at moved
  · rename_i all
    cases moved
    exact .queueUp all
  · cases moved

theorem moved_discard {closer : Nat} (moved : pipeline.discard? closer = some (next, events)) :
    Moved pipeline (.discard closer) next events := by
  unfold discard? at moved
  split at moved
  · rename_i head behind kind lined called
    split at moved
    · rename_i same
      subst same
      cases moved
      exact .discard lined called
    · cases moved
  · cases moved

theorem moved_of_move {move : Move} (moved : pipeline.move? move = some (next, events)) :
    Moved pipeline move next events := by
  cases move with
  | accept request =>
    have same : pipeline.accept request = (next, events) := Option.some.inj moved
    have step := moved_accept pipeline request
    rw [same] at step
    exact step
  | close kind =>
    cases moved
    exact .close kind
  | abandon => exact moved_abandon moved
  | grant => exact moved_grant moved
  | deliver => exact moved_deliver moved
  | refuse => exact moved_refuse moved
  | look worker => exact moved_look moved
  | listen worker => exact moved_listen moved
  | pause worker => exact moved_pause moved
  | wake worker => exact moved_wake moved
  | take worker => exact moved_take moved
  | leave worker => exact moved_leave moved
  | finish worker outcome => exact moved_finish moved
  | signal closer => exact moved_signal moved
  | takeOver closer => exact moved_takeOver moved
  | join closer => exact moved_join moved
  | queueUp closer => exact moved_queueUp moved
  | discard closer => exact moved_discard moved

/-- The list misses nothing: what it says of a move is what the move does. -/
theorem move_of_moved {move : Move} (moved : Moved pipeline move next events) :
    pipeline.move? move = some (next, events) := by
  cases moved with
  | turnAway request shut => simp [move?, accept, shut]
  | passOver request taking empty => simp [move?, accept, taking, empty]
  | bring request taking filled => simp [move?, accept, taking, filled]
  | close kind => rfl
  | abandon uncalled => simp [move?, abandon?, uncalled]
  | grant waits unsealed room => simp [move?, grant?, waits, unsealed, room]
  | deliver holds => simp [move?, deliver?, holds]
  | refuse waits shut => simp [move?, refuse?, waits, shut]
  | look ready going => simp [move?, look?, ready, going, setWorker]
  | lookAgain listening going finds => simp [move?, look?, listening, going, finds, setWorker]
  | listen cleared => simp [move?, listen?, cleared, setWorker]
  | pause poised nothing => simp [move?, pause?, poised, nothing, setWorker]
  | wake listening going => simp [move?, wake?, listening, going, setWorker]
  | take head queued poised => simp [move?, take?, head, queued, poised, setWorker]
  | leaveReady ready told => simp [move?, leave?, ready, told, setWorker]
  | leaveListening listening told => simp [move?, leave?, listening, told, setWorker]
  | leavePoised poised head none => simp [move?, leave?, poised, head, none, setWorker]
  | finish outcome applying => simp [move?, finish?, applying, setWorker]
  | signal due => simp [move?, signal?, due]
  | takeOver due kept => simp [move?, takeOver?, due, kept]
  | comeLate due late => simp [move?, takeOver?, due, late]
  | join crashed following ended => cases crashed <;> simp [move?, join?, following, ended]
  | queueUp all => simp [move?, queueUp?, all]
  | discard head called => simp [move?, discard?, head, called]

theorem run_cons {move : Move} {moves : List Move} {last : Pipeline}
    (ran : run? (move :: moves) pipeline = some (last, events)) :
    ∃ between before after, pipeline.move? move = some (between, before) ∧
      run? moves between = some (last, after) ∧ events = before ++ after := by
  unfold run? at ran
  cases moved : pipeline.move? move with
  | none =>
    rw [moved] at ran
    cases ran
  | some step =>
    rcases step with ⟨between, before⟩
    rw [moved] at ran
    cases later : run? moves between with
    | none =>
      simp only [later] at ran
      cases ran
    | some rest =>
      rcases rest with ⟨final, after⟩
      simp only [later] at ran
      cases ran
      exact ⟨between, before, after, rfl, later, rfl⟩

theorem run_append {first second : List Move} {last : Pipeline}
    (ran : run? (first ++ second) pipeline = some (last, events)) :
    ∃ between before after, run? first pipeline = some (between, before) ∧
      run? second between = some (last, after) ∧ events = before ++ after := by
  induction first generalizing pipeline events with
  | nil => exact ⟨pipeline, [], events, rfl, ran, rfl⟩
  | cons move first ih =>
    rcases run_cons ran with ⟨stepped, made, rest, moved, later, rfl⟩
    rcases ih later with ⟨between, before, after, front, back, rfl⟩
    refine ⟨between, made ++ before, after, ?_, back, ?_⟩
    · simp only [run?, moved, front]
    · rw [List.append_assoc]

theorem run_snoc {moves : List Move} {move : Move} {last : Pipeline}
    (ran : run? (moves ++ [move]) pipeline = some (last, events)) :
    ∃ between before after, run? moves pipeline = some (between, before) ∧
      between.move? move = some (last, after) ∧ events = before ++ after := by
  rcases run_append ran with ⟨between, before, rest, front, back, rfl⟩
  rcases run_cons back with ⟨stepped, after, nothing, moved, done, rfl⟩
  cases done
  exact ⟨between, before, after, front, moved, by rw [List.append_nil]⟩

theorem run_meets {first second : List Move} {between last : Pipeline} {past : List Event}
    (front : run? first pipeline = some (between, past))
    (back : run? second between = some (last, events)) :
    run? (first ++ second) pipeline = some (last, past ++ events) := by
  induction first generalizing pipeline past with
  | nil =>
    cases front
    exact back
  | cons move first ih =>
    rcases run_cons front with ⟨stepped, before, after, moved, later, rfl⟩
    simp only [List.cons_append, run?, moved, ih later, List.append_assoc]

theorem run_join {moves : List Move} {move : Move} {between : Pipeline} {past : List Event}
    (ran : run? moves pipeline = some (between, past))
    (moved : between.move? move = some (next, events)) :
    run? (moves ++ [move]) pipeline = some (next, past ++ events) := by
  apply run_meets ran
  simp only [run?, moved, List.append_nil]

/-- Each move is made in a state in which it is allowed. -/
def Throughout (allowed : Pipeline → Move → Prop) (moves : List Move) (pipeline : Pipeline) :
    Prop :=
  ∀ before move, before ++ [move] <+: moves →
    ∀ between past next events, run? before pipeline = some (between, past) →
      between.move? move = some (next, events) → allowed between move

theorem throughout_of_mem {allowed : Move → Prop} {moves : List Move}
    (all : ∀ move ∈ moves, allowed move) (pipeline : Pipeline) :
    Throughout (fun _ move => allowed move) moves pipeline := by
  intro before move made _ _ _ _ _ _
  exact all move (made.subset (by simp))

theorem throughout_front {allowed : Pipeline → Move → Prop} {moves first : List Move}
    (all : Throughout allowed moves pipeline) (front : first <+: moves) :
    Throughout allowed first pipeline :=
  fun before move made => all before move (made.trans front)

theorem throughout_tail {allowed : Pipeline → Move → Prop} {move : Move} {moves : List Move}
    (all : Throughout allowed (move :: moves) pipeline)
    (moved : pipeline.move? move = some (next, events)) : Throughout allowed moves next := by
  intro before other made between past last later ran stepped
  have whole : (move :: before) ++ [other] <+: move :: moves := by
    rw [List.cons_append, List.cons_prefix_cons]
    exact ⟨rfl, made⟩
  have joined : run? (move :: before) pipeline = some (between, events ++ past) := by
    simp only [run?, moved, ran]
  exact all (move :: before) other whole between (events ++ past) last later joined stepped

/-- What every allowed move keeps, a run of them keeps. -/
theorem run_keeps (kept : Pipeline → List Event → Prop) {allowed : Pipeline → Move → Prop}
    (step : ∀ {pipeline next : Pipeline} {past events : List Event} {move : Move},
      kept pipeline past → allowed pipeline move → Moved pipeline move next events →
        kept next (past ++ events))
    {moves : List Move} (all : Throughout allowed moves pipeline) (past : List Event)
    (begins : kept pipeline past) (ran : run? moves pipeline = some (next, events)) :
    kept next (past ++ events) := by
  -- The invariant may speak of the events so far, so the past grows with every move.
  induction moves generalizing pipeline past events with
  | nil =>
    cases ran
    rw [List.append_nil]
    exact begins
  | cons move moves ih =>
    rcases run_cons ran with ⟨between, before, after, moved, later, rfl⟩
    have able : allowed pipeline move :=
      all [] move (by simp) pipeline [] between before rfl moved
    have first := step begins able (moved_of_move moved)
    rw [← List.append_assoc]
    exact ih (throughout_tail all moved) (past ++ before) first later

/-- What every move keeps, every run keeps. -/
theorem run_keeps_always (kept : Pipeline → List Event → Prop)
    (step : ∀ {pipeline next : Pipeline} {past events : List Event} {move : Move},
      kept pipeline past → Moved pipeline move next events → kept next (past ++ events))
    {moves : List Move} (past : List Event) (begins : kept pipeline past)
    (ran : run? moves pipeline = some (next, events)) : kept next (past ++ events) :=
  run_keeps kept (fun held _ moved => step held moved)
    (throughout_of_mem (fun _ _ => trivial) pipeline) past begins ran

end Pipeline

end ShortLinks.Deletion
