import ShortLinks.Proofs.PipelineDrain
import ShortLinks.Proofs.PipelineQuiet

/-!
# Back-pressure without idling

While a pipeline is not told to stop, a worker ends only in a panic or when no request is left
to it. So where nothing goes on but calls in progress, a queued request means that every worker
left is in a call, and a request that waits for room means that the queue is full: otherwise
somebody could make a step. A request that finds a permit has only those before it to wait for,
and there are permits for these too; nobody has to end a call for it.
-/

namespace ShortLinks.Deletion

set_option autoImplicit false

def Event.panicked? : Event → Option Nat
  | ended worker _ .panicked => some worker
  | _ => none

def panicked (events : List Event) : List Nat := events.filterMap Event.panicked?

theorem panicked_append (past events : List Event) :
    panicked (past ++ events) = panicked past ++ panicked events := List.filterMap_append

namespace Pipeline

variable {pipeline next : Pipeline} {past events : List Event} {move : Move} {entry : Entry}
  {ahead behind : List Entry}

theorem crashed_set {worker : Nat} {old : Phase} (held : pipeline.workers[worker]? = some old)
    (alive : old ≠ .crashed) (phase : Phase) :
    (pipeline.workers.set worker phase).count .crashed =
      pipeline.workers.count .crashed + if phase = .crashed then 1 else 0 := by
  rcases List.getElem?_eq_some_iff.1 held with ⟨inside, found⟩
  rw [List.count_set inside, found]
  simp [alive]

theorem crashed_moved (moved : Moved pipeline move next events) :
    next.workers.count .crashed = pipeline.workers.count .crashed + (panicked events).length := by
  cases moved with
  | look ready => exact crashed_set ready (by simp) .cleared
  | lookAgain held | listen held | wake held => exact crashed_set held (by simp) .poised
  | pause poised => exact crashed_set poised (by simp) .listening
  | take head queued poised => exact crashed_set poised (by simp) (.applying _)
  | leaveReady held | leaveListening held | leavePoised held =>
    exact crashed_set held (by simp) .finished
  | finish outcome applying =>
    rw [crashed_set applying (by simp)]
    cases outcome <;> rfl
  | _ => rfl

theorem panicked_moved (moved : Moved pipeline move next events) {worker : Nat}
    (held : next.workers[worker]? = some .crashed) :
    pipeline.workers[worker]? = some .crashed ∨ worker ∈ panicked events := by
  rcases phase_before moved held with before | ⟨_, panics⟩
  · exact .inl before
  · obtain rfl := panics rfl
    cases moved with
    | finish => exact .inr List.mem_cons_self

/-- A worker is in one call at most, and in none once it has panicked. -/
theorem calls_beside_crashed (phases : List Phase) :
    (phases.flatMap fun phase => phase.entry?.toList).length + phases.count .crashed ≤
      phases.length := by
  induction phases with
  | nil => exact Nat.le_refl 0
  | cons phase phases induction =>
    rw [List.flatMap_cons, List.length_append, List.count_cons, List.length_cons]
    have one : phase.entry?.toList.length + (if phase == .crashed then 1 else 0) ≤ 1 := by
      cases phase <;> simp [Phase.entry?]
    omega

/-- How a pipeline stands that is drained at most: workers end in a panic, or when no request is
left to them. -/
structure Attended (settings : DeletionSettings) (pipeline : Pipeline) (past : List Event) :
    Prop where
  capacity : pipeline.capacity = max 1 settings.queueCapacity
  staff : pipeline.workers.length = max 1 settings.workers
  bounded : pipeline.queue.length + pipeline.granted.length ≤ pipeline.capacity
  crashed : (panicked past).length = pipeline.workers.count .crashed
  noted : ∀ worker : Nat, pipeline.workers[worker]? = some .crashed → worker ∈ panicked past
  going : pipeline.stopping = false
  uncalled : ∀ closer, pipeline.progress? closer ≠ some .signalling
  finished : ∀ worker : Nat, pipeline.workers[worker]? = some .finished →
    pipeline.exhausted = true

theorem attended_start (settings : DeletionSettings) : Attended settings (start settings) [] where
  capacity := rfl
  staff := List.length_replicate
  bounded := Nat.zero_le _
  crashed := by simp [start, panicked, List.count_replicate]
  noted := by simp [start, List.getElem?_replicate]
  going := rfl
  uncalled := by simp [start, progress?]
  finished := by simp [start, List.getElem?_replicate]

theorem bounded_moved
    (bounded : pipeline.queue.length + pipeline.granted.length ≤ pipeline.capacity)
    (moved : Moved pipeline move next events) :
    next.queue.length + next.granted.length ≤ next.capacity := by
  cases moved with
  | grant waits unsealed room =>
    rw [List.length_append, List.length_singleton]
    exact room
  | deliver holds =>
    rw [holds, List.length_cons] at bounded
    rw [List.length_append, List.length_singleton]
    dsimp only
    omega
  | take head queued =>
    rw [queued, List.length_cons] at bounded
    dsimp only
    omega
  | discard => exact (Nat.add_le_add_right (Nat.zero_le _) _).trans bounded
  | _ => exact bounded

theorem exhausted_iff : pipeline.exhausted = true ↔
    (pipeline.queue = [] ∧ pipeline.granted = []) ∧
      (pipeline.sealed = true ∨ pipeline.intake = false ∧ pipeline.waiting = []) := by
  simp only [exhausted, Bool.and_eq_true, Bool.or_eq_true, List.isEmpty_iff, Bool.not_eq_true']

theorem exhausted_stays (none : pipeline.exhausted = true)
    (moved : Moved pipeline move next events) : next.exhausted = true := by
  rw [exhausted_iff] at none ⊢
  rcases none with ⟨⟨queue, granted⟩, ends⟩
  cases moved with
  | bring request taking =>
    refine ⟨⟨queue, granted⟩, ends.imp_right ?_⟩
    rintro ⟨shut, _⟩
    rw [taking] at shut
    cases shut
  | grant waits unsealed =>
    rcases ends with shut | ⟨_, nobody⟩
    · rw [unsealed] at shut
      cases shut
    · rw [nobody] at waits
      cases waits
  | deliver holds =>
    rw [granted] at holds
    cases holds
  | refuse waits shut => exact ⟨⟨queue, granted⟩, .inl shut⟩
  | take head queued =>
    rw [queue] at queued
    cases queued
  | close | abandon => exact ⟨⟨queue, granted⟩, ends.imp_right fun shut => ⟨rfl, shut.2⟩⟩
  | discard => exact ⟨⟨rfl, granted⟩, .inl rfl⟩
  | _ => exact ⟨⟨queue, granted⟩, ends⟩

theorem finished_moved {settings : DeletionSettings} (attended : Attended settings pipeline past)
    (moved : Moved pipeline move next events) {worker : Nat}
    (held : next.workers[worker]? = some .finished) : next.exhausted = true := by
  rcases phase_before moved held with before | ⟨leaves, _⟩
  · exact exhausted_stays (attended.finished worker before) moved
  · obtain rfl := leaves rfl
    apply exhausted_stays _ moved
    cases moved with
    | leaveReady ready told | leaveListening listening told =>
      rw [attended.going] at told
      cases told
    | leavePoised poised head none => exact none

theorem attended_moved {settings : DeletionSettings} (attended : Attended settings pipeline past)
    (drains : move.OnlyDrains) (moved : Moved pipeline move next events) :
    Attended settings next (past ++ events) := by
  have going := going_moved attended.going attended.uncalled drains moved
  refine ⟨?_, ?_, bounded_moved attended.bounded moved, ?_, ?_, going.1, going.2, ?_⟩
  · have same := attended.capacity
    cases moved <;> exact same
  · rw [workers_length moved, attended.staff]
  · rw [panicked_append, List.length_append, attended.crashed, crashed_moved moved]
  · intro worker held
    rw [panicked_append, List.mem_append]
    exact (panicked_moved moved held).imp_left (attended.noted worker)
  · intro worker held
    exact finished_moved attended moved held

theorem attended_of_run {settings : DeletionSettings} {moves : List Move}
    (drains : ∀ move ∈ moves, move.OnlyDrains)
    (ran : run? moves (start settings) = some (next, events)) : Attended settings next events :=
  run_keeps (Attended settings) attended_moved (throughout_of_mem drains (start settings)) []
    (attended_start settings) ran

/-- No request is held up while somebody could see to it. -/
structure Loaded (settings : DeletionSettings) (pipeline : Pipeline) (past : List Event) :
    Prop where
  bounded : pipeline.queue.length ≤ max 1 settings.queueCapacity
  full : pipeline.waiting ≠ [] → pipeline.queue.length = max 1 settings.queueCapacity
  busy : pipeline.queue ≠ [] → ∀ worker < max 1 settings.workers, worker ∉ panicked past →
    ∃ entry, pipeline.workers[worker]? = some (.applying entry)
  calls : pipeline.applied.length + (panicked past).length ≤ max 1 settings.workers

theorem Quiet.busy (quiet : pipeline.Quiet) {settings : DeletionSettings}
    (attended : Attended settings pipeline past)
    (coherent : pipeline.Coherent) (queued : pipeline.queue ≠ []) {worker : Nat}
    (real : worker < max 1 settings.workers) (alive : worker ∉ panicked past) :
    ∃ entry, pipeline.workers[worker]? = some (.applying entry) := by
  have empty : pipeline.line = [] := by
    cases head : pipeline.line with
    | nil => rfl
    | cons party behind => exact absurd (quiet.head_waits coherent head).2.1 queued
  rw [← attended.staff] at real
  have held := List.getElem?_eq_getElem real
  rcases quiet.busy_or_gone coherent empty held with ⟨entry, applies⟩ | gone
  · exact ⟨entry, by rw [held, applies]⟩
  · exfalso
    cases ended : pipeline.workers[worker] with
    | crashed => exact alive (attended.noted worker (by rw [held, ended]))
    | finished =>
      have none := attended.finished worker (by rw [held, ended])
      exact queued (exhausted_iff.1 none).1.1
    | ready | cleared | poised | listening | applying =>
      rw [ended] at gone
      cases gone

theorem Quiet.loaded (quiet : pipeline.Quiet) {settings : DeletionSettings}
    (attended : Attended settings pipeline past) (coherent : pipeline.Coherent) :
    Loaded settings pipeline past := by
  have bounded := attended.bounded
  rw [quiet.none_granted, List.length_nil, Nat.add_zero] at bounded
  constructor
  · rw [← attended.capacity]
    exact bounded
  · intro waits
    rw [← attended.capacity]
    exact Nat.le_antisymm bounded (quiet.full waits)
  · intro queued worker real alive
    exact quiet.busy attended coherent queued real alive
  · rw [attended.crashed, ← attended.staff]
    exact calls_beside_crashed pipeline.workers

/-- No closing call has begun, and the queue is open. -/
structure Open (pipeline : Pipeline) : Prop where
  uncalled : pipeline.closers = []
  unsealed : pipeline.sealed = false

def Move.closes : Move → Bool
  | .close _ | .abandon => true
  | _ => false

theorem open_moved (unclosed : pipeline.Open) (keeps : Move.closes move = false)
    (moved : Moved pipeline move next events) : next.Open := by
  cases moved with
  | close | abandon => cases keeps
  | signal called | takeOver called | comeLate called | join crashed called | queueUp called =>
    simp [progress?, unclosed.uncalled] at called
  | discard head called => simp [unclosed.uncalled] at called
  | _ => exact ⟨unclosed.uncalled, unclosed.unsealed⟩

theorem open_of_taking {settings : DeletionSettings} {moves : List Move}
    (ran : run? moves (start settings) = some (pipeline, past))
    (taking : pipeline.intake = true) : pipeline.Open := by
  have kept := run_keeps_always
    (fun pipeline _ => pipeline.Coherent ∧ (pipeline.sealed = true → pipeline.intake = false)) ?_
    [] ⟨coherent_start settings, by simp [start]⟩ ran
  · rcases kept with ⟨coherent, shut⟩
    constructor
    · by_contra called
      simp [coherent.shut called] at taking
    · by_contra sealed
      simp [shut (by simpa using sealed)] at taking
  · rintro pipeline next past events move ⟨coherent, shut⟩ moved
    refine ⟨coherent_moved coherent moved, ?_⟩
    cases moved with
    | close | abandon => exact fun _ => rfl
    | discard head called =>
      intro _
      apply coherent.shut
      rintro none
      simp [none] at called
    | _ => exact shut

/-- The request comes behind no more others than there are permits for with it. -/
structure Near (entry : Entry) (ahead behind : List Entry) (pipeline : Pipeline) : Prop where
  order : pipeline.granted ++ pipeline.waiting = ahead ++ entry :: behind
  room : pipeline.queue.length + ahead.length < pipeline.capacity

/-- The request has been accepted, or is about to be. -/
def Nearing (entry : Entry) (pipeline : Pipeline) (events : List Event) : Prop :=
  .accepted entry ∈ events ∨ ∃ ahead behind, Near entry ahead behind pipeline

theorem near_moved (near : Near entry ahead behind pipeline) (unclosed : pipeline.Open)
    (moved : Moved pipeline move next events) : Nearing entry next events := by
  have order := near.order
  have room := near.room
  cases moved with
  | bring request taking =>
    refine .inr ⟨ahead, behind ++ [⟨pipeline.issued, request⟩], ?_, room⟩
    rw [← List.append_assoc, order, List.append_assoc, List.cons_append]
  | grant waits =>
    refine .inr ⟨ahead, behind, ?_, room⟩
    rw [← order, waits, List.append_assoc, List.singleton_append]
  | @deliver first later holds =>
    rw [holds, List.cons_append] at order
    cases ahead with
    | nil =>
      obtain ⟨rfl, rfl⟩ := List.cons.inj order
      exact .inl List.mem_cons_self
    | cons earlier ahead =>
      obtain ⟨rfl, same⟩ := List.cons.inj order
      refine .inr ⟨ahead, behind, same, ?_⟩
      simp only [List.length_append, List.length_cons, List.length_nil] at room ⊢
      omega
  | refuse waits shut =>
    rw [unclosed.unsealed] at shut
    cases shut
  | take head queued =>
    rw [queued, List.length_cons] at room
    exact .inr ⟨ahead, behind, order, by dsimp only; omega⟩
  | discard head called => simp [unclosed.uncalled] at called
  | _ => exact .inr ⟨ahead, behind, order, room⟩

theorem nearing_run {moves : List Move} (unclosed : pipeline.Open)
    (nearing : Nearing entry pipeline past) (keeps : ∀ move ∈ moves, Move.closes move = false)
    (ran : run? moves pipeline = some (next, events)) :
    next.Open ∧ Nearing entry next (past ++ events) := by
  apply run_keeps (fun now past => now.Open ∧ Nearing entry now past) _
    (throughout_of_mem keeps pipeline) past ⟨unclosed, nearing⟩ ran
  rintro now past next events move ⟨unclosed, accepted | ⟨ahead, behind, near⟩⟩ able moved
  · exact ⟨open_moved unclosed able moved, .inl (List.mem_append_left _ accepted)⟩
  · refine ⟨open_moved unclosed able moved, ?_⟩
    exact (near_moved near unclosed moved).imp_left (List.mem_append_right _)

/-- The turn of a request to get a permit or to use it. -/
def Move.admits (move : Move) : Prop := move = .grant ∨ move = .deliver

/-- The first of those that come can deliver, after its permit if it has none yet. -/
theorem Near.first (near : Near entry ahead behind pipeline) (unclosed : pipeline.Open) :
    ∃ first later turns last final, pipeline.granted ++ pipeline.waiting = first :: later ∧
      (∀ move ∈ turns, Move.admits move) ∧ run? turns pipeline = some (last, final) ∧
        .accepted first ∈ final ∧ last.Open ∧ last.granted ++ last.waiting = later ∧
        last.queue.length = pipeline.queue.length + 1 ∧ last.capacity = pipeline.capacity := by
  have free : pipeline.queue.length < pipeline.capacity := by
    have room := near.room
    omega
  cases holds : pipeline.granted with
  | cons first later =>
    have delivered := Moved.deliver holds
    refine ⟨first, later ++ pipeline.waiting, [.deliver], _, _, rfl, by simp [Move.admits],
      run_join (rfl : run? [] pipeline = _) (move_of_moved delivered), List.mem_cons_self, ?_, rfl,
      ?_, rfl⟩
    · exact ⟨unclosed.uncalled, unclosed.unsealed⟩
    · simp
  | nil =>
    cases waits : pipeline.waiting with
    | nil =>
      have order := near.order
      simp [holds, waits] at order
    | cons first later =>
      have granted := Moved.grant waits unclosed.unsealed (by simpa [holds] using free)
      have delivered : Moved
          { pipeline with waiting := later, granted := pipeline.granted ++ [first] } .deliver
          { pipeline with waiting := later, granted := [], queue := pipeline.queue ++ [first] }
          [.accepted first] := .deliver (by rw [holds]; rfl)
      have front := run_join (rfl : run? [] pipeline = _) (move_of_moved granted)
      refine ⟨first, later, [.grant, .deliver], _, _, rfl, by simp [Move.admits],
        run_join front (move_of_moved delivered), List.mem_cons_self, ?_, rfl, ?_, rfl⟩
      · exact ⟨unclosed.uncalled, unclosed.unsealed⟩
      · simp

theorem Near.entered (near : Near entry ahead behind pipeline) (unclosed : pipeline.Open) :
    ∃ turns last final, (∀ move ∈ turns, Move.admits move) ∧
      run? turns pipeline = some (last, final) ∧ .accepted entry ∈ final := by
  induction ahead generalizing pipeline with
  | nil =>
    rcases near.first unclosed with ⟨first, later, turns, last, final, order, only, ran, taken, _⟩
    rw [near.order, List.nil_append] at order
    obtain ⟨rfl, rfl⟩ := List.cons.inj order
    exact ⟨turns, last, final, only, ran, taken⟩
  | cons earlier ahead induction =>
    rcases near.first unclosed with
      ⟨first, later, turns, last, final, order, only, ran, _, opened, left, longer, same⟩
    rw [near.order, List.cons_append] at order
    obtain ⟨rfl, rfl⟩ := List.cons.inj order
    have room := near.room
    rw [List.length_cons] at room
    have after : Near entry ahead behind last := ⟨left, by omega⟩
    rcases induction after opened with ⟨more, reached, made, others, onward, taken⟩
    refine ⟨turns ++ more, reached, final ++ made, ?_, run_meets ran onward,
      List.mem_append_right _ taken⟩
    intro move member
    exact (List.mem_append.1 member).elim (only move) (others move)

/-- Whatever goes on after the call, short of closing: the request has been accepted wherever
nothing goes on but calls, and until then turns of those that come are all it needs. -/
def Prompt (request : Request) (pipeline : Pipeline) : Prop :=
  ∀ later last events, (∀ move ∈ later, Move.closes move = false) →
    run? (.accept request :: later) pipeline = some (last, events) →
      (last.Quiet → .accepted ⟨pipeline.issued, request⟩ ∈ events) ∧
        (.accepted ⟨pipeline.issued, request⟩ ∈ events ∨
          ∃ turns final made, (∀ move ∈ turns, Move.admits move) ∧
            run? turns last = some (final, made) ∧
              .accepted ⟨pipeline.issued, request⟩ ∈ made)

/-- There is a permit for everybody who has come, and for one more. -/
def Roomy (pipeline : Pipeline) : Prop :=
  pipeline.queue.length + pipeline.granted.length + pipeline.waiting.length < pipeline.capacity

theorem nearing_accept (unclosed : pipeline.Open) (taking : pipeline.intake = true)
    (room : pipeline.Roomy)
    {request : Request} (moved : Moved pipeline (.accept request) next events) :
    next.Open ∧ Nearing ⟨pipeline.issued, request⟩ next events := by
  refine ⟨open_moved unclosed rfl moved, ?_⟩
  cases moved with
  | turnAway request shut =>
    rw [taking] at shut
    cases shut
  | passOver => exact .inl (by simp)
  | bring =>
    refine .inr ⟨pipeline.granted ++ pipeline.waiting, [], List.append_assoc .. |>.symm, ?_⟩
    unfold Roomy at room
    rw [List.length_append, ← Nat.add_assoc]
    exact room

theorem prompt_of_room (unclosed : pipeline.Open) (taking : pipeline.intake = true)
    (room : pipeline.Roomy) (request : Request) : Prompt request pipeline := by
  intro later last events keeps ran
  rcases run_cons ran with ⟨between, before, after, moved, onward, rfl⟩
  rcases nearing_accept unclosed taking room (moved_of_move moved) with ⟨opened, nearing⟩
  rcases nearing_run opened nearing keeps onward with ⟨still, accepted | ⟨ahead, behind, near⟩⟩
  · exact ⟨fun _ => accepted, .inl accepted⟩
  · constructor
    · intro quiet
      have order := near.order
      rw [quiet.none_granted, List.nil_append] at order
      have waits : last.waiting ≠ [] := by simp [order]
      have full := quiet.full waits
      have short := near.room
      omega
    · right
      exact near.entered still

/-- On every pipeline that has been drained at most, with any number of workers and any room:
where nothing goes on but calls, no request is held up while somebody could see to it; and before
closing, a request that finds a permit is accepted without the end of any call. -/
theorem pressure_without_idling {settings : DeletionSettings} {moves : List Move}
    (ran : run? moves (start settings) = some (pipeline, past))
    (drains : ∀ move ∈ moves, move.OnlyDrains) :
    (pipeline.Quiet → Loaded settings pipeline past) ∧
      (pipeline.intake = true →
        pipeline.queued < max 1 settings.queueCapacity ∨
          pipeline.Quiet ∧ pipeline.queue.length < max 1 settings.queueCapacity →
        ∀ request, Prompt request pipeline) := by
  have attended := attended_of_run drains ran
  constructor
  · intro quiet
    exact quiet.loaded attended (coherent_of_run ran)
  · intro taking finds request
    apply prompt_of_room (open_of_taking ran taking) taking
    rw [← attended.capacity] at finds
    unfold Roomy
    rcases finds with room | ⟨quiet, room⟩
    · rw [queued, if_pos taking] at room
      omega
    · have none : pipeline.waiting = [] := by
        by_contra waits
        have full := quiet.full waits
        omega
      rw [none, quiet.none_granted]
      exact room

/-- One of two workers has panicked and the other is in a call, the queue is full and a request
waits for room when the drain comes. -/
def pressed : List Move :=
  brings ⟨"u1", [⟨"a"⟩]⟩ ++ [.look 0, .listen 0, .look 1, .listen 1, .take 0] ++
    brings ⟨"u1", [⟨"b"⟩]⟩ ++ [.take 1, .finish 1 .panicked] ++ brings ⟨"u2", [⟨"c"⟩]⟩ ++
    [.accept ⟨"u2", [⟨"d"⟩]⟩, .close .drain, .takeOver 0]

theorem pressed_pipeline_is_loaded :
    ∃ pipeline past, run? pressed (start ⟨2, 1⟩) = some (pipeline, past) ∧
      (∀ move ∈ pressed, move.OnlyDrains) ∧ pipeline.Quiet ∧ Loaded ⟨2, 1⟩ pipeline past ∧
        pipeline.waiting ≠ [] ∧ panicked past = [1] := by
  have drains : ∀ move ∈ pressed, move.OnlyDrains := by
    simp [pressed, brings, Move.OnlyDrains]
  obtain ⟨pipeline, past, ran, quiet, waits, lost⟩ : ∃ pipeline past,
      run? pressed (start ⟨2, 1⟩) = some (pipeline, past) ∧ pipeline.Quiet ∧
        pipeline.waiting ≠ [] ∧ panicked past = [1] :=
    ⟨_, _, rfl, quiet_of_ownMove (by decide), by decide, rfl⟩
  exact ⟨pipeline, past, ran, drains, quiet, (pressure_without_idling ran drains).1 quiet, waits,
    lost⟩

end Pipeline

end ShortLinks.Deletion
