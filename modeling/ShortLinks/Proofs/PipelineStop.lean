import ShortLinks.Proofs.PipelineProgress

/-!
# What a stop leaves behind

A stop that is the first closing call of its pipeline refuses every new call and cuts no call in
progress short. Three things can come between its moves. A worker that looked before the signal
begins one request more. Another closing call takes the workers over, and then the stop waits for
none of them. A request that holds its permit while the stop empties the queue is delivered
behind it, and its call succeeds. Where none of this happens nothing is begun after the signal,
the stop sees all workers end, and it leaves an empty queue that stays empty.
-/

namespace ShortLinks.Deletion

set_option autoImplicit false

/-- The worker has looked whether it is told to stop, and tries the queue before it looks again. -/
def Phase.looked : Phase → Bool
  | cleared | poised => true
  | _ => false

def Event.begunBy? (worker : Nat) : Event → Option Entry
  | began own entry => if own = worker then some entry else none
  | _ => none

def begunBy (worker : Nat) (events : List Event) : List Entry :=
  events.filterMap (Event.begunBy? worker)

theorem begunBy_append (worker : Nat) (past events : List Event) :
    begunBy worker (past ++ events) = begunBy worker past ++ begunBy worker events :=
  List.filterMap_append

namespace Pipeline

variable {pipeline next : Pipeline} {past events : List Event} {move : Move} {entry : Entry}

/-- Each worker has begun nothing since the signal, or the one request for which it had looked
before. -/
def BeginsLast (told : Pipeline) (events : List Event) : Prop :=
  ∀ worker : Nat, begunBy worker events = [] ∨
    ∃ (phase : Phase) (entry : Entry), told.workers[worker]? = some phase ∧
      phase.looked = true ∧ begunBy worker events = [entry]

theorem stopping_stays (told : pipeline.stopping = true)
    (moved : Moved pipeline move next events) : next.stopping = true := by
  cases moved with
  | signal | abandon => rfl
  | _ => exact told

theorem shut_stays (shut : pipeline.intake = false) (moved : Moved pipeline move next events) :
    next.intake = false := by
  cases moved with
  | close | abandon => rfl
  | _ => exact shut

/-- A worker that is told to stop has looked only if it had before, and what it begins is what it
had looked for. -/
theorem looked_moved (told : pipeline.stopping = true) (moved : Moved pipeline move next events)
    (worker : Nat) :
    (begunBy worker events = [] ∧ ∀ phase : Phase, next.workers[worker]? = some phase →
        phase.looked = true → ∃ before : Phase,
          pipeline.workers[worker]? = some before ∧ before.looked = true) ∨
      ∃ entry, begunBy worker events = [entry] ∧
        pipeline.workers[worker]? = some .poised ∧
        next.workers[worker]? = some (.applying entry) := by
  have other : ∀ {own : Nat} {new : Phase}, new.looked = false ∨
        (∃ old : Phase, pipeline.workers[own]? = some old ∧ old.looked = true) →
      ∀ phase : Phase, (pipeline.workers.set own new)[worker]? = some phase →
        phase.looked = true → ∃ before : Phase,
          pipeline.workers[worker]? = some before ∧ before.looked = true := by
    intro own new reason phase held looked
    rcases phase_after_set held with before | ⟨rfl, rfl⟩
    · exact ⟨phase, before, looked⟩
    · rcases reason with away | before
      · rw [looked] at away
        cases away
      · exact before
  cases moved with
  | look ready going | lookAgain listening going | wake listening going =>
    rw [told] at going
    cases going
  | listen cleared => exact .inl ⟨rfl, other (.inr ⟨_, cleared, rfl⟩)⟩
  | pause | leaveReady | leaveListening | leavePoised => exact .inl ⟨rfl, other (.inl rfl)⟩
  | finish outcome => exact .inl ⟨rfl, other (.inl (by split <;> rfl))⟩
  | @take own entry behind later head queued poised =>
    by_cases here : own = worker
    · subst here
      have inside := (List.getElem?_eq_some_iff.1 poised).1
      refine .inr ⟨entry, ?_, poised, List.getElem?_set_self inside⟩
      simp [begunBy, Event.begunBy?]
    · refine .inl ⟨?_, other (.inl rfl)⟩
      simp [begunBy, Event.begunBy?, here]
  | _ => exact .inl ⟨rfl, fun phase held looked => ⟨phase, held, looked⟩⟩

/-- A worker that has begun its last request does not look again. -/
structure Winding (told pipeline : Pipeline) (events : List Event) : Prop where
  stopping : pipeline.stopping = true
  looked : ∀ (worker : Nat) (phase : Phase), pipeline.workers[worker]? = some phase →
    phase.looked = true → begunBy worker events = [] ∧
      ∃ before : Phase, told.workers[worker]? = some before ∧ before.looked = true
  last : BeginsLast told events

theorem winding_moved {told : Pipeline} (winding : Winding told pipeline past)
    (moved : Moved pipeline move next events) : Winding told next (past ++ events) := by
  refine ⟨stopping_stays winding.stopping moved, ?_, ?_⟩
  · intro worker phase held looked
    rw [begunBy_append]
    rcases looked_moved winding.stopping moved worker with ⟨none, before⟩ | ⟨entry, _, _, applies⟩
    · rcases before phase held looked with ⟨earlier, found, had⟩
      rcases winding.looked worker earlier found had with ⟨nothing, first⟩
      exact ⟨by rw [nothing, none, List.append_nil], first⟩
    · rw [applies, Option.some.injEq] at held
      rw [← held] at looked
      cases looked
  · intro worker
    rw [begunBy_append]
    rcases looked_moved winding.stopping moved worker with ⟨none, _⟩ | ⟨entry, one, poised, _⟩
    · rw [none, List.append_nil]
      exact winding.last worker
    · rcases winding.looked worker .poised poised rfl with ⟨nothing, first, found, had⟩
      rw [nothing, one, List.nil_append]
      exact .inr ⟨first, entry, found, had, rfl⟩

theorem begins_last_of_run {moves : List Move} (told : pipeline.stopping = true)
    (ran : run? moves pipeline = some (next, events)) : BeginsLast pipeline events := by
  have begins : Winding pipeline pipeline [] := by
    refine ⟨told, ?_, fun worker => .inl rfl⟩
    intro worker phase held looked
    exact ⟨rfl, phase, held, looked⟩
  exact (run_keeps_always (Winding pipeline) winding_moved [] begins ran).last

theorem applying_moved (moved : Moved pipeline move next events) {worker : Nat}
    (applies : pipeline.workers[worker]? = some (.applying entry)) :
    next.workers[worker]? = some (.applying entry) ∨
      ∃ outcome, .ended worker entry outcome ∈ events := by
  have other : ∀ {changed : Nat} {old phase : Phase}, pipeline.workers[changed]? = some old →
      old ≠ .applying entry →
      (pipeline.workers.set changed phase)[worker]? = some (.applying entry) := by
    intro changed old phase held different
    have apart : changed ≠ worker := by
      rintro rfl
      rw [applies, Option.some.injEq] at held
      exact different held.symm
    rw [List.getElem?_set_ne apart, applies]
  cases moved with
  | look held | lookAgain held | listen held | pause held | wake held | take head queued held
  | leaveReady held | leaveListening held | leavePoised held => exact .inl (other held (by simp))
  | @finish changed held outcome applying =>
    by_cases same : changed = worker
    · subst same
      rw [applies, Option.some.injEq, Phase.applying.injEq] at applying
      exact .inr ⟨outcome, by simp [applying]⟩
    · left
      rw [List.getElem?_set_ne same, applies]
  | _ => exact .inl applies

theorem applying_run {moves : List Move} (ran : run? moves pipeline = some (next, events))
    {worker : Nat} (applies : pipeline.workers[worker]? = some (.applying entry)) :
    next.workers[worker]? = some (.applying entry) ∨
      ∃ outcome, .ended worker entry outcome ∈ events := by
  refine run_keeps_always
    (fun pipeline past => pipeline.workers[worker]? = some (.applying entry) ∨
      ∃ outcome, .ended worker entry outcome ∈ past)
    ?_ [] (.inl applies) ran
  rintro pipeline next past events move (goes | ⟨outcome, done⟩) moved
  · rcases applying_moved moved goes with on | ⟨outcome, done⟩
    · exact .inl on
    · exact .inr ⟨outcome, List.mem_append_right past done⟩
  · exact .inr ⟨outcome, List.mem_append_left events done⟩

/-- On a sealed pipeline that takes no requests only those are accepted that hold their permits,
in their order. -/
theorem late_moved (shut : pipeline.intake = false) (sealed : pipeline.sealed = true)
    (moved : Moved pipeline move next events) :
    accepted events ++ next.granted = pipeline.granted := by
  cases moved with
  | passOver request taking | bring request taking =>
    rw [shut] at taking
    cases taking
  | grant waits unsealed =>
    rw [sealed] at unsealed
    cases unsealed
  | deliver holds =>
    rw [holds]
    rfl
  | _ => rfl

theorem waiting_moved (sealed : pipeline.sealed = true) (moved : Moved pipeline move next events)
    (waits : entry ∈ pipeline.waiting) : entry ∈ next.waiting ∨ .refused entry ∈ events := by
  cases moved with
  | bring request => exact .inl (List.mem_append_left _ waits)
  | grant front unsealed =>
    rw [sealed] at unsealed
    cases unsealed
  | refuse front =>
    rw [front] at waits
    rcases List.mem_cons.1 waits with rfl | later
    · exact .inr List.mem_cons_self
    · exact .inl later
  | _ => exact .inl waits

theorem late_run (shut : pipeline.intake = false) (sealed : pipeline.sealed = true)
    {moves : List Move} (ran : run? moves pipeline = some (next, events)) :
    accepted events ++ next.granted = pipeline.granted ∧
      ∀ entry ∈ pipeline.waiting, .refused entry ∈ events ∨ entry ∈ next.waiting := by
  have kept := run_keeps_always
    (fun now past => (now.intake = false ∧ now.sealed = true) ∧
      accepted past ++ now.granted = pipeline.granted ∧
      ∀ entry ∈ pipeline.waiting, .refused entry ∈ past ∨ entry ∈ now.waiting)
    ?_ [] ⟨⟨shut, sealed⟩, rfl, fun _ waits => .inr waits⟩ ran
  · exact kept.2
  · rintro now after past events move ⟨⟨shut, sealed⟩, late, waited⟩ moved
    refine ⟨⟨shut_stays shut moved, sealed_stays moved sealed⟩, ?_, ?_⟩
    · rw [accepted_append, List.append_assoc, late_moved shut sealed moved, late]
    · intro entry waits
      rcases waited entry waits with denied | on
      · exact .inl (List.mem_append_left _ denied)
      · rcases waiting_moved sealed moved on with later | denied
        · exact .inr later
        · exact .inl (List.mem_append_right _ denied)

theorem refuse_possible (sealed : pipeline.sealed = true) (waits : entry ∈ pipeline.waiting) :
    (pipeline.move? .refuse).isSome = true := by
  cases front : pipeline.waiting with
  | nil =>
    rw [front] at waits
    cases waits
  | cons first later => simp [move?, refuse?, front, sealed]

theorem gone_run (gone : ∀ phase ∈ pipeline.workers, phase.gone = true) {moves : List Move}
    (ran : run? moves pipeline = some (next, events)) :
    next.workers = pipeline.workers ∧ begun events = [] := by
  apply run_keeps_always (fun now past => now.workers = pipeline.workers ∧ begun past = []) _ []
    ⟨rfl, rfl⟩ ran
  rintro now after past events move ⟨same, none⟩ moved
  have ended : ∀ {worker : Nat} {phase : Phase}, now.workers[worker]? = some phase →
      phase.gone = true := by
    intro worker phase held
    rw [same] at held
    exact gone phase (List.mem_of_getElem? held)
  constructor
  · rcases workers_moved moved with kept | ⟨worker, old, phase, held, working, _⟩
    · rw [kept, same]
    · rw [ended held] at working
      cases working
  · rw [begun_append, none, List.nil_append]
    cases moved with
    | take head queued poised => cases ended poised
    | _ => rfl

/-- How a closing call leaves the pipeline that it has stopped. The queue is empty, and only what
holds its permit then is delivered to it later: it is accepted, and taken out again by a closing
call or left. Who waits for a permit can only be refused. If the call has taken the workers over
all of them have ended, and nothing is begun any more. -/
structure Left (closer : Nat) (emptied pipeline : Pipeline) (events : List Event) : Prop where
  empty : emptied.queue = []
  late : accepted events ++ pipeline.granted = emptied.granted
  left : takenOut events ++ pipeline.queue = accepted events
  dismissed : ∀ entry ∈ emptied.waiting, .accepted entry ∉ events ∧
    (.refused entry ∈ events ∨
      entry ∈ pipeline.waiting ∧ (pipeline.move? .refuse).isSome = true)
  custody : ∃ other, emptied.custody = .taken other
  gone : emptied.custody = .taken closer → (∀ phase ∈ emptied.workers, phase.gone = true) ∧
    pipeline.workers = emptied.workers ∧ begun events = []

theorem left_of_run {emptied : Pipeline} (account : Account emptied past)
    (joins : emptied.Joins) (shut : emptied.intake = false) (empty : emptied.queue = [])
    (sealed : emptied.sealed = true) {closer : Nat}
    (returned : emptied.progress? closer = some .returned) (held : emptied.custody ≠ .dropped)
    {moves : List Move} (ran : run? moves emptied = some (pipeline, events)) :
    Left closer emptied pipeline events := by
  rcases late_run shut sealed ran with ⟨late, waited⟩
  have still := run_keeps_always (fun now _ => now.sealed = true)
    (fun shut moved => sealed_stays moved shut) [] sealed ran
  refine ⟨empty, late, ?_, ?_, ?_, ?_⟩
  · have whole := sealed_run sealed ran
    rw [empty, List.nil_append, ← late, ← List.append_assoc] at whole
    exact List.append_cancel_right whole
  · intro entry waits
    constructor
    · intro taken
      have permitted : entry ∈ emptied.granted := by
        rw [← late]
        exact List.mem_append_left _ (mem_accepted.2 taken)
      have once := (List.nodup_append.1 account.answers_nodup).2.1
      exact (List.nodup_append.1 once).2.2 entry permitted entry waits rfl
    · rcases waited entry waits with denied | on
      · exact .inl denied
      · exact .inr ⟨on, refuse_possible still on⟩
  · cases custody : emptied.custody with
    | kept => cases joins.early custody closer _ returned
    | taken other => exact ⟨other, rfl⟩
    | dropped => exact absurd custody held
  · intro taken
    have gone : ∀ phase ∈ emptied.workers, phase.gone = true := by
      intro phase member
      rcases List.getElem?_of_mem member with ⟨worker, found⟩
      exact joins.all_gone taken returned rfl found
    exact ⟨gone, gone_run gone ran⟩

/-- A pipeline is let go only where nobody is closing it, so its workers have been taken over if
somebody has closed it. -/
theorem held_moved (joins : pipeline.Joins) (called : pipeline.closers ≠ [])
    (held : pipeline.custody ≠ .dropped) (moved : Moved pipeline move next events) :
    next.closers ≠ [] ∧ next.custody ≠ .dropped := by
  constructor
  · exact List.ne_nil_of_length_pos
      (Nat.lt_of_lt_of_le (List.length_pos_iff.2 called) (closers_grow moved))
  · cases moved with
    | abandon uncalled =>
      rcases List.exists_mem_of_ne_nil _ called with ⟨call, member⟩
      rcases List.getElem?_of_mem member with ⟨closer, found⟩
      simp only [Pipeline.uncalled, Bool.and_eq_true, List.all_eq_true, beq_iff_eq] at uncalled
      have returned := progress_of_closers found
      rw [uncalled.2 call member] at returned
      have summoned : pipeline.custody ≠ .kept := by
        intro kept
        cases joins.early kept closer _ returned
      rw [if_neg summoned]
      exact held
    | takeOver => simp
    | _ => exact held

/-- What holds at each moment after a stop has begun. -/
structure WindsDown (stopped : Pipeline) (moves : List Move) (pipeline : Pipeline)
    (events : List Event) : Prop where
  uncut : ∀ early late between made, moves = early ++ late →
    run? early stopped = some (between, made) → ∀ (worker : Nat) (entry : Entry),
      between.workers[worker]? = some (.applying entry) →
        pipeline.workers[worker]? = some (.applying entry) ∨
          ∃ outcome, .ended worker entry outcome ∈ events
  unqueued : pipeline.queued = 0
  refusing : ∀ request, pipeline.accept request =
    ({ pipeline with issued := pipeline.issued + 1 },
      [.asked ⟨pipeline.issued, request⟩, .refused ⟨pipeline.issued, request⟩])
  signalled : ∀ early late, moves = early ++ .signal 0 :: late → ∃ told made rest,
    run? (early ++ [.signal 0]) stopped = some (told, made) ∧
      run? late told = some (pipeline, rest) ∧ BeginsLast told rest
  returned : ∀ early late, moves = early ++ .discard 0 :: late → ∃ emptied made rest,
    run? (early ++ [.discard 0]) stopped = some (emptied, made) ∧
      run? late emptied = some (pipeline, rest) ∧ Left 0 emptied pipeline rest

theorem refusing_of_shut (shut : pipeline.intake = false) (request : Request) :
    pipeline.accept request =
      ({ pipeline with issued := pipeline.issued + 1 },
        [.asked ⟨pipeline.issued, request⟩, .refused ⟨pipeline.issued, request⟩]) := by
  unfold accept
  simp only [shut, Bool.not_false, if_true]

theorem uncut_of_run {early late : List Move} {between : Pipeline} {made : List Event}
    (ran : run? (early ++ late) pipeline = some (next, events))
    (front : run? early pipeline = some (between, made)) {worker : Nat}
    (applies : between.workers[worker]? = some (.applying entry)) :
    next.workers[worker]? = some (.applying entry) ∨
      ∃ outcome, .ended worker entry outcome ∈ events := by
  rcases run_append ran with ⟨reached, before, after, first, second, rfl⟩
  rw [front] at first
  cases first
  rcases applying_run second applies with on | ⟨outcome, done⟩
  · exact .inl on
  · exact .inr ⟨outcome, List.mem_append_right _ done⟩

theorem signalled_of_run {early late : List Move} {closer : Nat}
    (ran : run? (early ++ .signal closer :: late) pipeline = some (next, events)) :
    ∃ told made rest, run? (early ++ [.signal closer]) pipeline = some (told, made) ∧
      run? late told = some (next, rest) ∧ BeginsLast told rest := by
  rw [List.append_cons] at ran
  rcases run_append ran with ⟨told, made, rest, front, back, _⟩
  rcases run_snoc front with ⟨between, before, after, _, moved, _⟩
  have stopping : told.stopping = true := by
    cases moved_of_move moved with
    | signal => rfl
  exact ⟨told, made, rest, front, back, begins_last_of_run stopping back⟩

theorem returned_discard {closer : Nat} (moved : Moved pipeline (.discard closer) next events) :
    next.progress? closer = some .returned := by
  cases moved with
  | discard head called => exact progress_set_self (progress_inLine called) .returned

/-- A stop that is the first closing call of its pipeline, whatever was going on when it came and
whatever anybody does afterwards. -/
theorem first_stop_winds_down {settings : DeletionSettings} {before after : List Move}
    {stopped : Pipeline} (first : ∀ move ∈ before, move ≠ .abandon ∧ ∀ kind, move ≠ .close kind)
    (called : run? (before ++ [.close .stop]) (start settings) = some (stopped, past))
    (ran : run? after stopped = some (pipeline, events)) :
    WindsDown stopped after pipeline events := by
  have begins : (stopped.intake = false ∧ stopped.closers ≠ []) ∧ stopped.custody ≠ .dropped := by
    constructor
    · rcases run_snoc called with ⟨between, front, made, _, moved, _⟩
      cases moved_of_move moved with
      | close => exact ⟨rfl, by simp⟩
    · apply custody_of_run _ called
      intro move member
      rcases List.mem_append.1 member with earlier | last
      · exact (first move earlier).1
      · obtain rfl := List.mem_singleton.1 last
        simp
  have onward : ∀ {moves now made}, run? moves stopped = some (now, made) →
      now.intake = false ∧ now.custody ≠ .dropped := by
    intro moves now made reached
    have kept := run_keeps_always
      (fun now _ => now.Joins ∧ now.intake = false ∧ now.closers ≠ [] ∧ now.custody ≠ .dropped)
      (fun held moved => ⟨joins_moved held.1 moved, shut_stays held.2.1 moved,
        held_moved held.1 held.2.2.1 held.2.2.2 moved⟩)
      [] ⟨joins_of_run called, begins.1.1, begins.1.2, begins.2⟩ reached
    exact ⟨kept.2.1, kept.2.2.2⟩
  have shut := (onward ran).1
  refine ⟨?_, ?_, refusing_of_shut shut, ?_, ?_⟩
  · rintro early late between made rfl front worker entry applies
    exact uncut_of_run ran front applies
  · rw [queued, shut]
    rfl
  · rintro early late rfl
    exact signalled_of_run ran
  · rintro early late rfl
    rw [List.append_cons] at ran
    rcases run_append ran with ⟨emptied, made, rest, front, back, _⟩
    rcases run_snoc front with ⟨between, _, last, _, moved, _⟩
    have empty := emptied_by_discard (moved_of_move moved)
    have whole := run_meets called front
    have held := onward front
    exact ⟨emptied, made, rest, front, back,
      left_of_run (account_of_run whole) (joins_of_run whole) held.1 empty.1 empty.2.1
        (returned_discard (moved_of_move moved)) held.2 back⟩

/-- One request is being applied, one is queued and one waits for a permit when the stop comes, and
a worker is suspended. -/
def busy : List Move :=
  brings ⟨"u1", [⟨"a"⟩]⟩ ++ [.look 0, .listen 0, .look 1, .listen 1, .take 0, .pause 1] ++
    brings ⟨"u1", [⟨"b"⟩]⟩ ++ [.accept ⟨"u2", [⟨"c"⟩]⟩]

/-- A drain comes too late, and the call in progress fails. -/
def windingUp : List Move :=
  [.accept ⟨"u2", []⟩, .close .drain, .signal 0, .leave 1, .takeOver 0, .takeOver 1,
    .finish 0 (.failed (.query "locked")), .leave 0, .join 0, .join 0, .queueUp 0, .discard 0,
    .refuse, .queueUp 1, .discard 1, .abandon]

theorem busy_stop_winds_down :
    (∀ move ∈ busy, move ≠ .abandon ∧ ∀ kind, move ≠ .close kind) ∧
      ∃ stopped past pipeline events,
        run? (busy ++ [.close .stop]) (start ⟨2, 1⟩) = some (stopped, past) ∧
          run? windingUp stopped = some (pipeline, events) ∧
          WindsDown stopped windingUp pipeline events ∧ .closed 0 .stop ∈ events ∧
          begun events = [] ∧ pipeline.workers = [.finished, .finished] ∧ pipeline.queue = [] ∧
          (discarded events).map Entry.ticket = [1] ∧
          (refused events).map Entry.ticket = [3, 2] := by
  have first : ∀ move ∈ busy, move ≠ .abandon ∧ ∀ kind, move ≠ .close kind := by
    simp [busy, brings]
  refine ⟨first, _, _, _, _, rfl, rfl, ?_, ?_, rfl, rfl, rfl, rfl, rfl⟩
  · exact first_stop_winds_down first
      (rfl : run? (busy ++ [.close .stop]) (start ⟨2, 1⟩) = _) (rfl : run? windingUp _ = _)
  · simp

/-- A worker has looked, and a second request holds its permit. -/
def hurried : List Move :=
  brings ⟨"u1", [⟨"a"⟩]⟩ ++ [.look 0, .listen 0, .accept ⟨"u1", [⟨"b"⟩]⟩, .grant]

/-- The worker begins a request after the signal; a drain takes it over, so the stop returns while
the request is being applied; and the second one is delivered and accepted after that. -/
theorem overtaken_stop_returns_early :
    (∀ move ∈ hurried, move ≠ .abandon ∧ ∀ kind, move ≠ .close kind) ∧
      ∃ told past returned events last,
        run? (hurried ++ [.close .stop, .close .drain, .signal 0]) (start ⟨1, 2⟩) =
            some (told, past) ∧
          run? [.take 0, .takeOver 1, .takeOver 0, .queueUp 0, .discard 0] told =
            some (returned, events) ∧
          .began 0 ⟨0, ⟨"u1", [⟨"a"⟩]⟩⟩ ∈ events ∧ .closed 0 .stop ∈ events ∧
          returned.workers = [.applying ⟨0, ⟨"u1", [⟨"a"⟩]⟩⟩] ∧
          run? [.deliver] returned = some (last, [.accepted ⟨1, ⟨"u1", [⟨"b"⟩]⟩⟩]) ∧
          last.queue = [⟨1, ⟨"u1", [⟨"b"⟩]⟩⟩] := by
  refine ⟨by simp [hurried, brings], _, _, _, _, _, rfl, rfl, List.mem_cons_self, ?_, rfl, rfl, rfl⟩
  simp

end Pipeline

end ShortLinks.Deletion
