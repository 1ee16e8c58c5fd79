import ShortLinks.Proofs.PipelineDrain
import ShortLinks.Proofs.PipelineProgress

/-!
# Running a pipeline until it is quiet

A pipeline that runs by itself makes its own moves and hands its requests to the state outside,
in whatever order. Where nobody can go on, a pipeline that takes requests has none left: some
worker would take it. So a request that was brought alone has been applied then, once.
-/

namespace ShortLinks.Deletion

set_option autoImplicit false

/-- The parties go on by themselves. A worker may wake for nothing. -/
def Move.unasked : Move → Bool
  | wake _ => true
  | move => move.own

/-- Nothing new is asked for, and no call ends in a panic. -/
def Move.Calm : Move → Prop
  | accept _ | close _ | abandon => False
  | finish _ outcome => outcome ≠ .panicked
  | _ => True

theorem Move.unasked_of_own {move : Move} (own : move.own = true) : move.unasked = true := by
  cases move with
  | wake => rfl
  | _ => exact own

theorem Move.calm_of_unasked {move : Move} (unasked : move.unasked = true) : move.Calm := by
  cases move with
  | accept | close | abandon | finish => cases unasked
  | _ => trivial

theorem ended_append (past events : List Event) :
    ended (past ++ events) = ended past ++ ended events := List.filterMap_append

namespace Pipeline

section Works

variable {σ : Type} {apply : Request → σ → Outcome × σ}

/-- The pipeline goes on by itself for a while. A request takes effect on the state outside as its
call ends. -/
inductive Works (apply : Request → σ → Outcome × σ) :
    Pipeline → σ → List Event → Pipeline → σ → Prop
  | rest (pipeline : Pipeline) (state : σ) : Works apply pipeline state [] pipeline state
  | step {pipeline between last : Pipeline} {state final : σ} {before after : List Event}
      {move : Move} (unasked : move.unasked = true)
      (moved : pipeline.move? move = some (between, before))
      (later : Works apply between state after last final) :
      Works apply pipeline state (before ++ after) last final
  | finish {pipeline between last : Pipeline} {state final : σ} {before after : List Event}
      {worker : Nat} {entry : Entry}
      (applying : pipeline.workers[worker]? = some (.applying entry))
      (moved : pipeline.finish? worker (apply entry.request state).1 = some (between, before))
      (later : Works apply between (apply entry.request state).2 after last final) :
      Works apply pipeline state (before ++ after) last final

theorem Works.append {pipeline between last : Pipeline} {state middle final : σ}
    {before after : List Event} (first : Works apply pipeline state before between middle)
    (second : Works apply between middle after last final) :
    Works apply pipeline state (before ++ after) last final := by
  induction first with
  | rest => exact second
  | step unasked moved later induction =>
    rw [List.append_assoc]
    exact .step unasked moved (induction second)
  | finish applying moved later induction =>
    rw [List.append_assoc]
    exact .finish applying moved (induction second)

/-- The state after the requests have been applied. -/
def effect (apply : Request → σ → Outcome × σ) (entries : List Entry) (state : σ) : σ :=
  entries.foldl (fun current entry => (apply entry.request current).2) state

theorem ended_unasked {pipeline next : Pipeline} {events : List Event} {move : Move}
    (unasked : move.unasked = true) (moved : Moved pipeline move next events) :
    ended events = [] := by
  cases moved with
  | turnAway | passOver | bring | finish | close | abandon => cases unasked
  | _ => rfl

theorem Works.ran {pipeline last : Pipeline} {state final : σ} {events : List Event}
    (works : Works apply pipeline state events last final)
    (never : ∀ request state, (apply request state).1 ≠ .panicked) :
    (∃ moves, run? moves pipeline = some (last, events) ∧ ∀ move ∈ moves, move.Calm) ∧
      final = effect apply (ended events) state := by
  induction works with
  | rest => exact ⟨⟨[], rfl, by simp⟩, rfl⟩
  | @step pipeline between last state final before after move unasked moved later induction =>
    rcases induction with ⟨⟨moves, ran, calm⟩, reached⟩
    constructor
    · refine ⟨move :: moves, by simp only [run?, moved, ran], List.forall_mem_cons.2 ⟨?_, calm⟩⟩
      exact Move.calm_of_unasked unasked
    · rw [reached, ended_append, ended_unasked unasked (moved_of_move moved), List.nil_append]
  | @finish pipeline between last state final before after worker entry applying moved later
      induction =>
    rcases induction with ⟨⟨moves, ran, calm⟩, reached⟩
    constructor
    · refine ⟨.finish worker (apply entry.request state).1 :: moves,
        by simp only [run?, move?, moved, ran], List.forall_mem_cons.2 ⟨?_, calm⟩⟩
      exact never entry.request state
    · simp only [finish?, applying, Option.some.injEq, Prod.mk.injEq] at moved
      rw [reached, ← moved.2]
      rfl

theorem settleWithin_works (fuel : Nat) (pipeline : Pipeline) (state : σ) :
    Works apply pipeline state (pipeline.settleWithin fuel).2 (pipeline.settleWithin fuel).1
      state := by
  induction fuel generalizing pipeline with
  | zero => exact .rest pipeline state
  | succ fuel induction =>
    unfold settleWithin
    cases moved : pipeline.ownMove? with
    | none => exact .rest pipeline state
    | some step =>
      unfold ownMove? at moved
      rcases List.exists_of_findSome?_eq_some moved with ⟨move, listed, stepped⟩
      exact .step (Move.unasked_of_own (own_of_mem listed)) stepped (induction step.1)

theorem runWithin_works (fuel : Nat) (pipeline : Pipeline) (state : σ) :
    Works apply pipeline state (runWithin apply fuel pipeline state).2.1
      (runWithin apply fuel pipeline state).1 (runWithin apply fuel pipeline state).2.2 := by
  induction fuel generalizing pipeline state with
  | zero => exact .rest pipeline state
  | succ fuel induction =>
    have settled : Works apply pipeline state pipeline.settle.2 pipeline.settle.1 state :=
      settleWithin_works pipeline.weight pipeline state
    unfold runWithin
    cases oldest : pipeline.settle.1.oldest? with
    | none =>
      simp only [oldest]
      exact settled
    | some call =>
      rcases call with ⟨worker, entry⟩
      have applying := mem_inProgress (mem_of_oldest? oldest)
      cases ended : pipeline.settle.1.finish? worker (apply entry.request state).1 with
      | none => simp [finish?, applying] at ended
      | some step =>
        simp only [oldest, ended]
        rw [List.append_assoc]
        exact settled.append (.finish applying ended (induction step.1 _))

theorem run_works (pipeline : Pipeline) (state : σ) :
    Works apply pipeline state (run apply pipeline state).2.1 (run apply pipeline state).1
      (run apply pipeline state).2.2 :=
  runWithin_works (pipeline.weight + 1) pipeline state

end Works

variable {pipeline next : Pipeline} {past events : List Event} {move : Move}

theorem mem_ownMoves (own : move.own = true) (moved : Moved pipeline move next events) :
    move ∈ pipeline.ownMoves := by
  have worker : ∀ {worker : Nat} {phase : Phase}, pipeline.workers[worker]? = some phase →
      worker ∈ List.range pipeline.workers.length := by
    intro worker phase held
    exact List.mem_range.2 (List.getElem?_eq_some_iff.1 held).1
  have closer : ∀ {closer : Nat} {progress : Progress},
      pipeline.progress? closer = some progress →
        closer ∈ List.range pipeline.closers.length := by
    intro closer progress called
    rcases Option.map_eq_some_iff.1 called with ⟨call, held, _⟩
    exact List.mem_range.2 (List.getElem?_eq_some_iff.1 held).1
  cases moved with
  | grant | deliver | refuse => simp [ownMoves]
  | look held | lookAgain held | listen held | pause held | leaveReady held | leaveListening held
  | leavePoised held => simp [ownMoves, List.mem_range.1 (worker held)]
  | take head => simp [ownMoves, headMoves, head]
  | signal called | takeOver called | comeLate called | join crashed called | queueUp called =>
    simp [ownMoves, List.mem_range.1 (closer called)]
  | discard head => simp [ownMoves, headMoves, head]
  | turnAway | passOver | bring | wake | finish | close | abandon => cases own

theorem oldest_some {calls : List (Nat × Entry)} {best : Nat × Entry} :
    calls.foldl older (some best) ≠ none := by
  induction calls generalizing best with
  | nil => simp
  | cons call calls induction =>
    rw [List.foldl_cons, older]
    split <;> exact induction

theorem quiet_of_ownMove (none : pipeline.ownMove? = none) : pipeline.Quiet := by
  intro move own
  by_contra possible
  rcases Option.ne_none_iff_exists'.1 possible with ⟨⟨next, events⟩, stepped⟩
  have listed := mem_ownMoves own (moved_of_move stepped)
  rw [ownMove?, List.findSome?_eq_none_iff] at none
  rw [none move listed] at stepped
  cases stepped

/-- Where the schedule stops, nobody can go on. -/
theorem still_of_quiet (quiet : pipeline.ownMove? = none) (nobody : pipeline.oldest? = none) :
    pipeline.Still := by
  constructor
  · exact quiet_of_ownMove quiet
  · apply List.flatMap_eq_nil_iff.2
    intro phase member
    cases held : phase.entry? with
    | none => rfl
    | some entry =>
      rcases List.getElem?_of_mem member with ⟨worker, found⟩
      have listed : (worker, entry) ∈ pipeline.inProgress := by
        apply List.mem_filterMap.2
        exact ⟨(phase, worker), List.mem_zipIdx_iff_getElem?.2 found, by simp [held]⟩
      cases calls : pipeline.inProgress with
      | nil =>
        rw [calls] at listed
        cases listed
      | cons call later =>
        rw [oldest?, calls, List.foldl_cons] at nobody
        exact absurd nobody oldest_some

/-- Nobody has closed the pipeline, and all its workers go on. -/
structure Serving (pipeline : Pipeline) : Prop where
  intake : pipeline.intake = true
  going : pipeline.stopping = false
  unsealed : pipeline.sealed = false
  uncalled : pipeline.closers = []
  staffed : pipeline.workers ≠ []
  present : ∀ (worker : Nat) (phase : Phase), pipeline.workers[worker]? = some phase →
    phase.gone = false

theorem serving_start (settings : DeletionSettings) : (start settings).Serving := by
  refine ⟨rfl, rfl, rfl, rfl, ?_, ?_⟩
  · simp [start]
  · intro worker phase held
    simp only [start, List.getElem?_replicate] at held
    split at held
    · cases held
      rfl
    · cases held

theorem serving_moved (serving : pipeline.Serving)
    (calm : move.Calm ∨ ∃ request, move = .accept request)
    (moved : Moved pipeline move next events) : next.Serving ∧ refused events = [] := by
  have kept : next.workers ≠ [] := by
    intro none
    have same := workers_length moved
    rw [none, List.length_nil] at same
    exact serving.staffed (List.length_eq_zero_iff.1 same.symm)
  have present : (∀ worker, move ≠ .leave worker) →
      ∀ (worker : Nat) (phase : Phase), next.workers[worker]? = some phase →
        phase.gone = false := by
    intro stays worker phase held
    rcases phase_before moved held with before | ⟨leaves, panics⟩
    · exact serving.present worker phase before
    · cases phase with
      | finished => exact absurd (leaves rfl) (stays worker)
      | crashed =>
        rw [panics rfl] at calm
        rcases calm with never | ⟨request, brings⟩
        · exact absurd rfl never
        · cases brings
      | _ => rfl
  cases moved with
  | turnAway request shut =>
    rw [serving.intake] at shut
    cases shut
  | refuse waits shut =>
    rw [serving.unsealed] at shut
    cases shut
  | leaveReady ready told | leaveListening listening told =>
    rw [serving.going] at told
    cases told
  | leavePoised poised head none =>
    simp [exhausted, serving.intake, serving.unsealed] at none
  | signal called | takeOver called | comeLate called | join crashed called | queueUp called =>
    simp [progress?, serving.uncalled] at called
  | discard head called =>
    simp [serving.uncalled] at called
  | close | abandon =>
    rcases calm with never | ⟨request, brings⟩
    · cases never
    · cases brings
  | _ =>
    exact ⟨⟨serving.intake, serving.going, serving.unsealed, serving.uncalled, kept,
      present (by simp)⟩, rfl⟩

theorem Serving.idle (serving : pipeline.Serving) (coherent : pipeline.Coherent)
    (still : pipeline.Still) : pipeline.Idle := by
  have empty : pipeline.queue = [] := by
    cases head : pipeline.line with
    | nil =>
      exfalso
      have inside := List.length_pos_of_ne_nil serving.staffed
      have held := List.getElem?_eq_getElem inside
      have gone := still.workers_gone coherent head held
      rw [serving.present 0 _ held] at gone
      cases gone
    | cons party behind => exact (still.quiet.head_waits coherent head).2.1
  exact ⟨still.quiet.nobody_waits coherent empty, still.quiet.none_granted, empty, still.calls⟩

theorem serving_run {moves : List Move} (serving : pipeline.Serving)
    (calm : ∀ move ∈ moves, move.Calm ∨ ∃ request, move = .accept request)
    (ran : run? moves pipeline = some (next, events)) :
    next.Serving ∧ refused events = [] := by
  apply run_keeps (fun pipeline past => pipeline.Serving ∧ refused past = []) _
    (throughout_of_mem calm pipeline) [] ⟨serving, rfl⟩ ran
  rintro pipeline past move next events ⟨serving, none⟩ able moved
  rcases serving_moved serving able moved with ⟨kept, more⟩
  unfold refused at none more ⊢
  exact ⟨kept, by rw [List.filterMap_append, none, more, List.nil_append]⟩

/-- Between two moments at which nothing is left to do, what was asked for was answered, and what
was accepted was applied. -/
theorem ended_between (before : Account pipeline past) (idle : pipeline.Idle)
    (after : Account next (past ++ events)) (idleNext : next.Idle)
    (kept : discarded (past ++ events) = []) :
    (asked events).Perm (accepted events ++ refused events) ∧
      (ended events).Perm ((accepted events).filter Entry.filled) := by
  have lost : discarded events = [] := by
    rw [discarded_append, List.append_eq_nil_iff] at kept
    exact kept.2
  constructor
  · have answers := before.answers
    have answersNext := after.answers
    rw [idle.granted, idle.waiting, List.append_nil, List.append_nil] at answers
    rw [idleNext.granted, idleNext.waiting, List.append_nil, List.append_nil] at answersNext
    rw [List.perm_iff_count] at answers answersNext ⊢
    intro entry
    have first := answers entry
    have whole := answersNext entry
    unfold asked accepted refused at first whole ⊢
    simp only [List.filterMap_append, List.count_append] at first whole ⊢
    omega
  · have order := before.order
    have orderNext := after.order
    rw [idle.queue, List.append_nil] at order
    rw [idleNext.queue, List.append_nil, accepted_append, takenOut_append, List.filter_append,
      order, List.append_cancel_left_eq] at orderNext
    have taken := takenOut_perm events
    rw [lost, List.append_nil] at taken
    have calls := before.calls
    have callsNext := after.calls
    rw [idle.applied, List.append_nil] at calls
    rw [idleNext.applied, List.append_nil] at callsNext
    rw [orderNext]
    refine List.Perm.trans ?_ taken.symm
    rw [List.perm_iff_count] at calls callsNext ⊢
    intro entry
    have first := calls entry
    have whole := callsNext entry
    rw [begun_append, ended_append, List.count_append, List.count_append] at whole
    omega

/-- A request that was brought alone has been applied, unless it names no codes. -/
theorem lone_ended {entry : Entry} (before : Account pipeline past) (idle : pipeline.Idle)
    (after : Account next (past ++ events)) (idleNext : next.Idle)
    (kept : discarded (past ++ events) = []) (lone : asked events = [entry])
    (taken : entry ∈ accepted events ∨ refused events = []) :
    accepted events = [entry] ∧ ended events = [entry].filter Entry.filled := by
  rcases ended_between before idle after idleNext kept with ⟨answered, applied⟩
  rw [lone] at answered
  have whole := (List.singleton_perm.1 answered).symm
  have accepted : accepted events = [entry] := by
    rcases taken with held | none
    · rcases List.append_eq_singleton_iff.1 whole with ⟨empty, _⟩ | ⟨all, _⟩
      · rw [empty] at held
        cases held
      · exact all
    · rwa [none, List.append_nil] at whole
  rw [accepted] at applied
  refine ⟨accepted, ?_⟩
  cases filled : entry.filled with
  | true =>
    rw [List.filter_cons_of_pos filled] at applied ⊢
    exact List.perm_singleton.1 applied
  | false =>
    rw [List.filter_cons_of_neg (by simp [filled])] at applied ⊢
    exact List.perm_nil.1 applied

theorem asked_calm (calm : move.Calm) (moved : Moved pipeline move next events) :
    asked events = [] := by
  cases moved with
  | turnAway | passOver | bring => cases calm
  | _ => rfl

theorem kinds_setProgress (pipeline : Pipeline) (closer : Nat) (progress : Progress) :
    (pipeline.setProgress closer progress).closers.map Closer.kind =
      pipeline.closers.map Closer.kind := by
  apply List.ext_getElem?
  intro position
  simp only [setProgress, List.getElem?_map, List.getElem?_modify]
  split <;> cases pipeline.closers[position]? <;> rfl

theorem kinds_calm (calm : move.Calm) (moved : Moved pipeline move next events) :
    next.closers.map Closer.kind = pipeline.closers.map Closer.kind := by
  cases moved with
  | signal | takeOver | comeLate | join | queueUp | discard =>
    exact kinds_setProgress pipeline _ _
  | close => cases calm
  | _ => rfl

theorem calm_run {moves : List Move} (calm : ∀ move ∈ moves, move.Calm)
    (ran : run? moves pipeline = some (next, events)) :
    asked events = [] ∧ next.closers.map Closer.kind = pipeline.closers.map Closer.kind := by
  apply run_keeps (fun now past =>
    asked past = [] ∧ now.closers.map Closer.kind = pipeline.closers.map Closer.kind) _
    (throughout_of_mem calm pipeline) [] ⟨rfl, rfl⟩ ran
  rintro now past move next events ⟨none, kinds⟩ able moved
  rw [asked_append, none, asked_calm able moved, kinds_calm able moved]
  exact ⟨rfl, kinds⟩

end Pipeline

end ShortLinks.Deletion
