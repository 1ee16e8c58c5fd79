import ShortLinks.Proofs.PipelineAccount
import ShortLinks.Proofs.PipelineWorkers
import Mathlib.Data.List.TakeWhile

/-!
# What a drain promises

A drain promises that every request taken before it is applied when it returns. This holds
exactly if nothing is left to do whenever a closing call comes to discard the queue. The call
that has taken the workers over sees all of them end, and one that does not crash ends only when
nothing is left; so promises are broken only by another drain that overtakes this call. It has no
workers to wait for, and may discard what the workers are about to take.
-/

namespace ShortLinks.Deletion

set_option autoImplicit false

def Event.isClosing : Event → Bool
  | closing _ _ => true
  | _ => false

/-- The events before the first closing call began. -/
def opening (events : List Event) : List Event := events.takeWhile fun event => !event.isClosing

/-- The call that brought the request has succeeded, or was waiting for room when the first
closing call began. -/
def Promised (events : List Event) (entry : Entry) : Prop :=
  entry.request.codes ≠ [] ∧ (.accepted entry ∈ events ∨ .asked entry ∈ opening events)

/-- Every promised request was applied to its end, and none was discarded. -/
def PromisesKept (events : List Event) : Prop :=
  ∀ entry, Promised events entry →
    (∃ worker outcome, .ended worker entry outcome ∈ events) ∧
      ¬ ∃ closer entries, .discarded closer entries ∈ events ∧ entry ∈ entries

def Move.OnlyDrains (move : Move) : Prop := move ≠ .abandon ∧ move ≠ .close .stop

namespace Pipeline

structure Idle (pipeline : Pipeline) : Prop where
  waiting : pipeline.waiting = []
  granted : pipeline.granted = []
  queue : pipeline.queue = []
  applied : pipeline.applied = []

/-- Whenever a closing call returns, the promises are kept. -/
def ReturnsKeepPromises (settings : DeletionSettings) (moves : List Move) : Prop :=
  ∀ before closer, before ++ [.discard closer] <+: moves →
    ∀ next events, run? (before ++ [.discard closer]) (start settings) = some (next, events) →
      PromisesKept events

/-- Whenever a closing call comes to discard the queue, nothing is left to do. -/
def ReturnsIdle (settings : DeletionSettings) (moves : List Move) : Prop :=
  Throughout (fun pipeline move => ∀ closer, move = .discard closer → pipeline.Idle) moves
    (start settings)

/-- The closing call is the one that has taken the workers over, or comes after that one has
returned. -/
def InTurn (pipeline : Pipeline) (closer : Nat) : Prop :=
  ∃ first, pipeline.custody = .taken first ∧
    (closer = first ∨ pipeline.progress? first = some .returned)

/-- A closing call that comes to discard the queue while the one that has the workers has not
returned leaves nothing to do behind. -/
def OvertakesIdle (settings : DeletionSettings) (moves : List Move) : Prop :=
  Throughout
    (fun pipeline move => ∀ closer, move = .discard closer →
      pipeline.InTurn closer ∨ pipeline.Idle)
    moves (start settings)

end Pipeline

theorem opening_subset {events : List Event} {event : Event} (early : event ∈ opening events) :
    event ∈ events := List.takeWhile_subset _ early

theorem opening_append {past events : List Event} {event : Event}
    (early : event ∈ opening (past ++ events)) : event ∈ opening past ∨ event ∈ events := by
  unfold opening at early ⊢
  rw [List.takeWhile_append] at early
  split at early
  · rename_i whole
    rcases List.mem_append.1 early with before | after
    · have same : past.takeWhile (fun event => !event.isClosing) = past :=
        (List.takeWhile_prefix _).eq_of_length whole
      rw [same]
      exact .inl before
    · exact .inr (List.takeWhile_subset _ after)
  · exact .inl early

theorem opening_mono {past : List Event} {event : Event} (early : event ∈ opening past)
    (events : List Event) : event ∈ opening (past ++ events) := by
  unfold opening at early ⊢
  rw [List.takeWhile_append]
  split
  · exact List.mem_append_left _ (List.takeWhile_subset _ early)
  · exact early

theorem opening_shut {past : List Event} (shut : past.any Event.isClosing = true)
    (events : List Event) : opening (past ++ events) = opening past := by
  rcases List.any_eq_true.1 shut with ⟨event, held, closes⟩
  unfold opening
  rw [List.takeWhile_append, if_neg]
  intro whole
  have same : past.takeWhile (fun event => !event.isClosing) = past :=
    (List.takeWhile_prefix _).eq_of_length whole
  rw [← same] at held
  have early := List.mem_takeWhile_imp held
  simp [closes] at early

theorem opening_all {events : List Event} (none : events.any Event.isClosing = false) :
    opening events = events := by
  apply List.takeWhile_eq_self_iff.2
  intro event held
  have every := List.any_eq_false.1 none event held
  simpa using every

namespace Pipeline

variable {pipeline next : Pipeline} {past events : List Event} {move : Move} {entry : Entry}

/-- How the intake and the events before the first closing call go together. -/
structure Intake (pipeline : Pipeline) (events : List Event) : Prop where
  closing : events.any Event.isClosing = !pipeline.intake
  called : pipeline.closers ≠ [] → pipeline.intake = false
  waited : ∀ entry ∈ pipeline.granted ++ pipeline.waiting, .asked entry ∈ opening events

theorem intake_start (settings : DeletionSettings) : Intake (start settings) [] := by
  constructor <;> simp [start]

/-- Who has still to be answered had to be before, or has just asked. -/
theorem pending_moved (moved : Moved pipeline move next events)
    (waits : entry ∈ next.granted ++ next.waiting) :
    entry ∈ pipeline.granted ++ pipeline.waiting ∨
      pipeline.intake = true ∧ .asked entry ∈ events := by
  cases moved with
  | bring request taking =>
    rw [← List.append_assoc] at waits
    rcases List.mem_append.1 waits with before | new
    · exact .inl before
    · obtain rfl := List.mem_singleton.1 new
      exact .inr ⟨taking, List.mem_cons_self⟩
  | grant waiting =>
    left
    rw [waiting]
    simpa using waits
  | deliver holds =>
    left
    rw [holds]
    exact List.mem_cons_of_mem _ waits
  | refuse waiting =>
    left
    rw [waiting]
    exact ((List.sublist_cons_self _ _).append_left _).subset waits
  | _ => exact .inl waits

theorem intake_moved (intake : Intake pipeline past) (held : move ≠ .abandon)
    (moved : Moved pipeline move next events) : Intake next (past ++ events) := by
  constructor
  · rw [List.any_append, intake.closing]
    cases moved with
    | abandon => exact absurd rfl held
    | close kind => simp [Event.isClosing]
    | _ => exact Bool.or_false _
  · cases moved with
    | abandon => exact absurd rfl held
    | close kind => exact fun _ => rfl
    | signal | takeOver | comeLate | join | queueUp | discard =>
      simpa [setProgress] using intake.called
    | _ => exact intake.called
  · intro entry waits
    rcases pending_moved moved waits with before | ⟨taking, brought⟩
    · exact opening_mono (intake.waited entry before) _
    · rw [opening_all]
      · exact List.mem_append_right _ brought
      · have none : past.any Event.isClosing = false := by rw [intake.closing, taking]; rfl
        cases moved with
        | turnAway | passOver | bring =>
          rw [List.any_append, none]
          rfl
        | _ => simp at brought

theorem asked_moved (moved : Moved pipeline move next events)
    (brought : .asked entry ∈ events) : entry.ticket = pipeline.issued := by
  cases moved <;> simp_all

theorem refused_moved (moved : Moved pipeline move next events)
    (denied : .refused entry ∈ events) :
    (pipeline.intake = false ∧ entry.ticket = pipeline.issued) ∨
      (pipeline.sealed = true ∧ entry ∈ pipeline.waiting) := by
  cases moved <;> simp_all

/-- No request is left for the workers, and none will come. -/
structure Spent (pipeline : Pipeline) : Prop where
  queue : pipeline.queue = []
  granted : pipeline.granted = []
  waiting : pipeline.waiting = []
  shut : pipeline.intake = false

theorem spent_stays (spent : pipeline.Spent) (moved : Moved pipeline move next events) :
    next.Spent := by
  cases moved with
  | bring request taking =>
    rw [spent.shut] at taking
    cases taking
  | grant waits | refuse waits =>
    rw [spent.waiting] at waits
    cases waits
  | deliver holds =>
    rw [spent.granted] at holds
    cases holds
  | take head queued =>
    rw [spent.queue] at queued
    cases queued
  | discard => exact ⟨rfl, spent.granted, spent.waiting, spent.shut⟩
  | close | abandon => exact ⟨spent.queue, spent.granted, spent.waiting, rfl⟩
  | _ => exact ⟨spent.queue, spent.granted, spent.waiting, spent.shut⟩

theorem sealed_spent (intake : Intake pipeline past)
    (before : pipeline.sealed = true → pipeline.Spent)
    (idle : ∀ closer, move = .discard closer → pipeline.Idle)
    (moved : Moved pipeline move next events) (shut : next.sealed = true) : next.Spent := by
  by_cases already : pipeline.sealed = true
  · exact spent_stays (before already) moved
  · cases moved with
    | @discard closer kind behind head called =>
      have present : pipeline.closers ≠ [] := by
        intro none
        simp [none] at called
      have rests := idle closer rfl
      exact ⟨rfl, rests.granted, rests.waiting, intake.called present⟩
    | _ => exact absurd shut already

/-- No request that was taken has been lost so far. -/
structure Unspoilt (pipeline : Pipeline) (events : List Event) : Prop where
  discarded : discarded events = []
  sealed : pipeline.sealed = true → pipeline.Spent
  unrefused : ∀ entry, .asked entry ∈ opening events → .refused entry ∉ events

theorem unspoilt_moved (account : Account pipeline past) (intake : Intake pipeline past)
    (unspoilt : Unspoilt pipeline past)
    (idle : ∀ closer, move = .discard closer → pipeline.Idle)
    (moved : Moved pipeline move next events) : Unspoilt next (past ++ events) := by
  constructor
  · have before := unspoilt.discarded
    unfold Deletion.discarded at before ⊢
    rw [List.flatMap_append, before, List.nil_append]
    cases moved with
    | @discard closer kind behind =>
      have empty := (idle closer rfl).queue
      simp [Event.discards, empty]
    | _ => rfl
  · exact sealed_spent intake unspoilt.sealed idle moved
  · intro entry early denied
    -- A request is refused as it is asked, once the intake has ended, or while it waits in a
    -- sealed queue; what was asked before the first closing call is neither.
    rcases List.mem_append.1 denied with before | new
    · have known := account.ticket_lt (account.asked_of_refused (mem_refused.2 before))
      rcases opening_append early with opened | brought
      · exact unspoilt.unrefused entry opened before
      · have fresh := asked_moved moved brought
        omega
    · rcases refused_moved moved new with ⟨shut, fresh⟩ | ⟨shut, waits⟩
      · have closing : past.any Event.isClosing = true := by rw [intake.closing, shut]; rfl
        rw [opening_shut closing] at early
        have known := account.ticket_lt (mem_asked.2 (opening_subset early))
        omega
      · rw [(unspoilt.sealed shut).waiting] at waits
        cases waits

theorem filled_iff : entry.filled = true ↔ entry.request.codes ≠ [] := by
  simp [Entry.filled]

theorem returned {closer : Nat} (moved : pipeline.move? (.discard closer) = some (next, events)) :
    ∃ kind, events = [.discarded closer pipeline.queue, .closed closer kind] := by
  cases moved_of_move moved with
  | discard head called => exact ⟨_, rfl⟩

theorem promises_of_idle (account : Account pipeline past)
    (unspoilt : Unspoilt pipeline past) (idle : pipeline.Idle) {closer : Nat}
    (moved : pipeline.move? (.discard closer) = some (next, events)) :
    PromisesKept (past ++ events) := by
  rcases returned moved with ⟨kind, rfl⟩
  rintro entry ⟨filled, promised⟩
  have taken : entry ∈ accepted past := by
    rcases promised with answered | early
    · exact mem_accepted.2 (by simpa using answered)
    · have opened : .asked entry ∈ opening past := by
        rcases opening_append early with before | after
        · exact before
        · simp at after
      rcases account.asked_cases (mem_asked.2 (opening_subset opened)) with taken | denied | waits
      · exact taken
      · exact absurd (mem_refused.1 denied) (unspoilt.unrefused entry opened)
      · rw [idle.granted, idle.waiting] at waits
        cases waits
  constructor
  · rcases account.accepted_cases taken (filled_iff.2 filled) with begun | dropped | queued
    · rcases account.begun_cases.1 begun with done | applies
      · rcases mem_ended.1 done with ⟨worker, outcome, held⟩
        exact ⟨worker, outcome, List.mem_append_left _ held⟩
      · rw [idle.applied] at applies
        cases applies
    · rw [unspoilt.discarded] at dropped
      cases dropped
    · rw [idle.queue] at queued
      cases queued
  · intro dropped
    have listed := mem_discarded.2 dropped
    unfold discarded at listed
    rw [List.flatMap_append] at listed
    rcases List.mem_append.1 listed with before | after
    · have none := unspoilt.discarded
      unfold discarded at none
      rw [none] at before
      cases before
    · simp [Event.discards, idle.queue] at after

theorem idle_of_promises (account : Account pipeline past) (intake : Intake pipeline past)
    {closer : Nat} (moved : pipeline.move? (.discard closer) = some (next, events))
    (kept : PromisesKept (past ++ events)) : pipeline.Idle := by
  rcases returned moved with ⟨kind, rfl⟩
  -- Whatever has not ended is promised, wherever it is.
  have done : ∀ entry, entry.request.codes ≠ [] →
      entry ∈ accepted past ∨ entry ∈ pipeline.granted ++ pipeline.waiting →
        entry ∈ ended past := by
    intro entry filled held
    have promised : Promised (past ++ [.discarded closer pipeline.queue, .closed closer kind])
        entry := by
      refine ⟨filled, ?_⟩
      rcases held with taken | waits
      · exact .inl (List.mem_append_left _ (mem_accepted.1 taken))
      · exact .inr (opening_mono (intake.waited entry waits) _)
    rcases (kept entry promised).1 with ⟨worker, outcome, ended⟩
    exact mem_ended.2 ⟨worker, outcome, by simpa using ended⟩
  have answered : pipeline.granted ++ pipeline.waiting = [] := by
    apply List.eq_nil_iff_forall_not_mem.2
    intro entry waits
    have filled := filled_iff.1 (account.filled entry waits)
    have begun := account.begun_cases.2 (.inl (done entry filled (.inr waits)))
    exact account.accepted_not_pending (account.accepted_of_begun begun).1 waits
  rw [List.append_eq_nil_iff] at answered
  refine ⟨answered.2, answered.1, ?_, ?_⟩
  · apply List.eq_nil_iff_forall_not_mem.2
    intro entry queued
    have taken := account.accepted_of_queued queued
    have answered : .accepted entry ∈ past ++ [.discarded closer pipeline.queue,
        .closed closer kind] := List.mem_append_left _ (mem_accepted.1 taken.1)
    apply (kept entry ⟨filled_iff.1 taken.2, .inl answered⟩).2
    exact ⟨closer, pipeline.queue, by simp, queued⟩
  · apply List.eq_nil_iff_forall_not_mem.2
    intro entry applies
    have taken := account.accepted_of_begun (account.begun_cases.2 (.inr applies))
    exact account.applied_not_ended applies (done entry (filled_iff.1 taken.2) (.inl taken.1))

theorem intake_of_run {settings : DeletionSettings} {moves : List Move}
    (drains : ∀ move ∈ moves, move.OnlyDrains)
    (ran : run? moves (start settings) = some (next, events)) : Intake next events :=
  run_keeps Intake (fun intake allowed moved => intake_moved intake allowed moved)
    (throughout_of_mem (fun move member => (drains move member).1) (start settings))
    [] (intake_start settings) ran

theorem unspoilt_of_run {settings : DeletionSettings} {moves : List Move}
    (drains : ∀ move ∈ moves, move.OnlyDrains) (idle : ReturnsIdle settings moves)
    (ran : run? moves (start settings) = some (next, events)) : Unspoilt next events := by
  have allowed : Throughout
      (fun pipeline move => move.OnlyDrains ∧ ∀ closer, move = .discard closer → pipeline.Idle)
      moves (start settings) := by
    intro before move made between past next events front moved
    exact ⟨drains move (made.subset (by simp)),
      idle before move made between past next events front moved⟩
  have begins : Unspoilt (start settings) [] := by
    constructor <;> simp [discarded, start]
  have kept := run_keeps
    (fun pipeline past => Account pipeline past ∧ Intake pipeline past ∧ Unspoilt pipeline past)
    (fun held able moved =>
      ⟨account_moved held.1 moved, intake_moved held.2.1 able.1.1 moved,
        unspoilt_moved held.1 held.2.1 held.2.2 able.2 moved⟩)
    allowed [] ⟨account_start settings, intake_start settings, begins⟩ ran
  exact kept.2.2

theorem returns_keep_iff_idle {settings : DeletionSettings} {moves : List Move}
    (drains : ∀ move ∈ moves, move.OnlyDrains) :
    ReturnsKeepPromises settings moves ↔ ReturnsIdle settings moves := by
  constructor
  · intro kept before move made between past next events front moved closer same
    subst same
    have calm : ∀ move ∈ before, move.OnlyDrains :=
      fun move member => drains move (made.subset (by simp [member]))
    have ran : run? (before ++ [.discard closer]) (start settings) =
        some (next, past ++ events) := run_join front moved
    exact idle_of_promises (account_of_run front) (intake_of_run calm front) moved
      (kept before closer made next (past ++ events) ran)
  · intro idle before closer made next events ran
    rcases run_snoc ran with ⟨between, past, after, front, moved, rfl⟩
    have calm : ∀ move ∈ before, move.OnlyDrains :=
      fun move member => drains move (made.subset (by simp [member]))
    have shorter : before <+: moves := (List.prefix_append before _).trans made
    exact promises_of_idle (account_of_run front)
      (unspoilt_of_run calm (throughout_front idle shorter) front)
      (idle before _ made between past next after front moved closer rfl) moved

/-- The queue is sealed only when nothing is left, and so a worker that does not crash finishes
only then. The call that has the workers waits for it. -/
structure Orderly (survivor : Nat) (pipeline : Pipeline) : Prop where
  going : pipeline.stopping = false
  uncalled : ∀ closer, pipeline.progress? closer ≠ some .signalling
  joins : pipeline.Joins
  sealed : pipeline.sealed = true → pipeline.Spent
  present : survivor < pipeline.workers.length
  survives : pipeline.workers[survivor]? ≠ some .crashed
  finished : ∀ worker : Nat, pipeline.workers[worker]? = some .finished → pipeline.Spent

theorem orderly_start {settings : DeletionSettings} {survivor : Nat}
    (real : survivor < max 1 settings.workers) : Orderly survivor (start settings) where
  going := rfl
  uncalled := by simp [start, progress?]
  joins := joins_start settings
  sealed := by simp [start]
  present := by simpa [start] using real
  survives := by simp [start, List.getElem?_replicate]
  finished := by simp [start, List.getElem?_replicate]

theorem going_moved (going : pipeline.stopping = false)
    (uncalled : ∀ closer, pipeline.progress? closer ≠ some .signalling) (drains : move.OnlyDrains)
    (moved : Moved pipeline move next events) :
    next.stopping = false ∧ ∀ closer, next.progress? closer ≠ some .signalling := by
  constructor
  · cases moved with
    | signal due => exact absurd due (uncalled _)
    | abandon => exact absurd rfl drains.1
    | _ => exact going
  · intro closer called
    rcases progress_moved moved called with before | ⟨kind, rfl, _, first⟩ | ⟨_, _, never⟩
    · exact uncalled closer before
    · cases kind with
      | stop => exact drains.2 rfl
      | drain => cases first
    · exact never

theorem spent_of_exhausted (sealed : pipeline.sealed = true → pipeline.Spent)
    (none : pipeline.exhausted = true) : pipeline.Spent := by
  simp only [exhausted, Bool.and_eq_true, Bool.or_eq_true, List.isEmpty_iff,
    Bool.not_eq_true'] at none
  -- The queue brings nothing more if it is sealed, or if nobody is left who could send.
  rcases none with ⟨⟨queue, granted⟩, shut | ⟨shut, waiting⟩⟩
  · exact sealed shut
  · exact ⟨queue, granted, waiting, shut⟩

theorem orderly_moved {survivor : Nat} (orderly : Orderly survivor pipeline)
    (intake : Intake pipeline past) (drains : move.OnlyDrains)
    (calm : move ≠ .finish survivor .panicked)
    (idle : ∀ closer, move = .discard closer → pipeline.Idle)
    (moved : Moved pipeline move next events) : Orderly survivor next := by
  have going := going_moved orderly.going orderly.uncalled drains moved
  refine ⟨going.1, going.2, joins_moved orderly.joins moved, ?_, ?_, ?_, ?_⟩
  · exact sealed_spent intake orderly.sealed idle moved
  · rw [workers_length moved]
    exact orderly.present
  · intro crashed
    rcases phase_before moved crashed with before | ⟨_, panics⟩
    · exact orderly.survives before
    · exact calm (panics rfl)
  · intro worker held
    rcases phase_before moved held with before | ⟨leaves, _⟩
    · exact spent_stays (orderly.finished worker before) moved
    · obtain rfl := leaves rfl
      apply spent_stays _ moved
      cases moved with
      | leaveReady held told | leaveListening held told =>
        rw [orderly.going] at told
        cases told
      | leavePoised poised head none => exact spent_of_exhausted orderly.sealed none

/-- Once the call that has the workers has seen all of them end, nothing is left to do. -/
theorem idle_of_joined {survivor : Nat} (orderly : Orderly survivor pipeline) {closer : Nat}
    {progress : Progress} (taken : pipeline.custody = .taken closer)
    (called : pipeline.progress? closer = some progress) (all : progress.remaining = []) :
    pipeline.Idle := by
  have gone : ∀ (worker : Nat) (phase : Phase),
      pipeline.workers[worker]? = some phase → phase.gone = true :=
    fun worker phase held => orderly.joins.all_gone taken called all held
  obtain ⟨phase, held⟩ : ∃ phase, pipeline.workers[survivor]? = some phase :=
    ⟨_, List.getElem?_eq_getElem orderly.present⟩
  have ended := gone survivor phase held
  have finished : phase = .finished := by
    have survives := orderly.survives
    rw [held] at survives
    cases phase with
    | finished => rfl
    | crashed => exact absurd rfl survives
    | _ => cases ended
  have spent := orderly.finished survivor (finished ▸ held)
  refine ⟨spent.waiting, spent.granted, spent.queue, ?_⟩
  apply List.flatMap_eq_nil_iff.2
  intro phase member
  rcases List.getElem?_of_mem member with ⟨worker, found⟩
  rw [Phase.entry_of_gone (gone worker phase found)]
  rfl

theorem idle_of_orderly {survivor : Nat} (orderly : Orderly survivor pipeline) {closer : Nat}
    (order : pipeline.InTurn closer ∨ pipeline.Idle)
    (moved : Moved pipeline (.discard closer) next events) : pipeline.Idle := by
  rcases order with ⟨first, taken, rfl | returned⟩ | idle
  · cases moved with
    | discard head called => exact idle_of_joined orderly taken (progress_inLine called) rfl
  · exact idle_of_joined orderly taken returned rfl
  · exact idle

theorem orderly_of_run {settings : DeletionSettings} {moves : List Move}
    (drains : ∀ move ∈ moves, move.OnlyDrains) {survivor : Nat}
    (real : survivor < max 1 settings.workers) (survives : .finish survivor .panicked ∉ moves)
    (order : OvertakesIdle settings moves)
    (ran : run? moves (start settings) = some (next, events)) : Orderly survivor next := by
  have allowed : Throughout
      (fun pipeline move => (move.OnlyDrains ∧ move ≠ .finish survivor .panicked) ∧
        ∀ closer, move = .discard closer → pipeline.InTurn closer ∨ pipeline.Idle)
      moves (start settings) := by
    intro before move made between past next events front moved
    have member : move ∈ moves := made.subset (by simp)
    refine ⟨⟨drains move member, ?_⟩, order before move made between past next events front moved⟩
    rintro rfl
    exact survives member
  have kept : Intake next events ∧ Orderly survivor next := by
    apply run_keeps (fun pipeline past => Intake pipeline past ∧ Orderly survivor pipeline) _
      allowed [] ⟨intake_start settings, orderly_start real⟩ ran
    rintro pipeline past move next events ⟨intake, orderly⟩ able moved
    refine ⟨intake_moved intake able.1.1.1 moved, ?_⟩
    apply orderly_moved orderly intake able.1.1 able.1.2 _ moved
    rintro closer rfl
    exact idle_of_orderly orderly (able.2 closer rfl) moved
  exact kept.2

theorem returns_idle_of_overtakes {settings : DeletionSettings} {moves : List Move}
    (drains : ∀ move ∈ moves, move.OnlyDrains) {survivor : Nat}
    (real : survivor < max 1 settings.workers) (survives : .finish survivor .panicked ∉ moves)
    (order : OvertakesIdle settings moves) : ReturnsIdle settings moves := by
  intro before move made between past next events front moved closer same
  subst same
  have shorter : before <+: moves := (List.prefix_append before _).trans made
  have orderly : Orderly survivor between :=
    orderly_of_run (fun move member => drains move (shorter.subset member)) real
      (fun member => survives (shorter.subset member)) (throughout_front order shorter) front
  exact idle_of_orderly orderly
    (order before _ made between past next events front moved closer rfl) (moved_of_move moved)

/-- While every closing call is a drain and some worker does not panic, the promises are kept at
every return exactly if no drain overtakes the one that has the workers while something is left to
do. -/
theorem drains_keep_promises {settings : DeletionSettings} {moves : List Move}
    (drains : ∀ move ∈ moves, move.OnlyDrains) {survivor : Nat}
    (real : survivor < max 1 settings.workers) (survives : .finish survivor .panicked ∉ moves) :
    ReturnsKeepPromises settings moves ↔ OvertakesIdle settings moves := by
  rw [returns_keep_iff_idle drains]
  constructor
  · intro idle before move made between past next events front moved closer same
    exact .inr (idle before move made between past next events front moved closer same)
  · exact returns_idle_of_overtakes drains real survives

/-- Two drains overlap, and the second waits behind the first. -/
def patient : List Move :=
  brings ⟨"u1", [⟨"a"⟩]⟩ ++ takes 0 ++
    [.close .drain, .close .drain, .takeOver 0, .takeOver 1, .finish 0 .applied, .look 0,
      .listen 0, .leave 0, .join 0, .queueUp 0, .queueUp 1]

theorem patient_drain_keeps :
    (∀ move ∈ patient ++ [.discard 0], move.OnlyDrains) ∧
      0 < max 1 (DeletionSettings.mk 1 4).workers ∧
      .finish 0 .panicked ∉ patient ++ [.discard 0] ∧
      OvertakesIdle ⟨1, 4⟩ (patient ++ [.discard 0]) ∧
      ∃ next events,
        run? (patient ++ [.discard 0]) (start ⟨1, 4⟩) = some (next, events) ∧
          PromisesKept events := by
  have drains : ∀ move ∈ patient ++ [.discard 0], move.OnlyDrains := by
    simp [patient, brings, takes, Move.OnlyDrains]
  have real : 0 < max 1 (DeletionSettings.mk 1 4).workers := by decide
  have survives : .finish 0 .panicked ∉ patient ++ [.discard 0] := by decide
  have first : OvertakesIdle ⟨1, 4⟩ (patient ++ [.discard 0]) := by
    intro before move made between past next events ran _ closer same
    subst same
    -- The only discard is the last move, and by then the first call has the workers.
    have whole : before = patient := by
      rcases List.prefix_concat_iff.1 made with all | shorter
      · exact (List.append_inj' all rfl).1
      · have member : .discard closer ∈ patient := shorter.subset (by simp)
        simp [patient, brings, takes] at member
    have last : closer = 0 := by
      have member : .discard closer ∈ patient ++ [.discard 0] := made.subset (by simp)
      simpa [patient, brings, takes] using member
    subst whole
    left
    obtain ⟨reached, same, taken⟩ : ∃ reached, run? patient (start ⟨1, 4⟩) = some reached ∧
        reached.1.custody = .taken 0 := ⟨_, rfl, rfl⟩
    rw [ran] at same
    cases same
    exact ⟨0, taken, .inl last⟩
  have kept := (drains_keep_promises drains real survives).2 first
  exact ⟨drains, real, survives, first, _, _, rfl, kept patient 0 (List.prefix_refl _) _ _ rfl⟩

/-- The second drain finds no workers to wait for, and the lock is free. -/
def overtaking : List Move :=
  brings ⟨"u1", [⟨"a"⟩]⟩ ++ takes 0 ++ brings ⟨"u1", [⟨"b"⟩]⟩ ++
    [.close .drain, .takeOver 0, .close .drain, .takeOver 1, .queueUp 1, .discard 1]

def overtakingEvents : List Event :=
  let applied : Entry := ⟨0, ⟨"u1", [⟨"a"⟩]⟩⟩
  let lost : Entry := ⟨1, ⟨"u1", [⟨"b"⟩]⟩⟩
  [.asked applied, .accepted applied, .began 0 applied, .asked lost, .accepted lost,
    .closing 0 .drain, .closing 1 .drain, .discarded 1 [lost], .closed 1 .drain]

theorem overtaking_drain_discards :
    (∀ move ∈ overtaking, move.OnlyDrains) ∧ .finish 0 .panicked ∉ overtaking ∧
      (∃ next, run? overtaking (start ⟨1, 4⟩) = some (next, overtakingEvents)) ∧
        ¬ PromisesKept overtakingEvents := by
  have drains : ∀ move ∈ overtaking, move.OnlyDrains := by
    simp [overtaking, brings, takes, Move.OnlyDrains]
  refine ⟨drains, by decide, ⟨_, rfl⟩, ?_⟩
  intro kept
  have promised : Promised overtakingEvents ⟨1, ⟨"u1", [⟨"b"⟩]⟩⟩ := by
    refine ⟨by simp, .inl ?_⟩
    simp [overtakingEvents]
  apply (kept _ promised).2
  exact ⟨1, [⟨1, ⟨"u1", [⟨"b"⟩]⟩⟩], by simp [overtakingEvents], by simp⟩

end Pipeline

end ShortLinks.Deletion
