import ShortLinks.Proofs.PipelineAccount
import ShortLinks.Proofs.PipelineWorkers
import Mathlib.Data.List.Induction

/-!
# Closing comes to an end

Whoever stands in line for the lock is a worker that looks for a request or a closing call that
has seen its workers end, and stands there once. So when nobody can make a step, the line has an
end or its head is a worker that waits for a request. On a pipeline that is being closed that
worker could leave: the line is empty, all workers have ended, and the closing calls have nothing
left to wait for. Steps and ends of calls make the work that is left smaller, so every pipeline
comes to this point whatever the order in which its parties run. Only requests that held their
permits while the queue was emptied can be left in it then.
-/

namespace ShortLinks.Deletion

set_option autoImplicit false

def Phase.stands : Phase → Bool
  | poised | listening => true
  | _ => false

namespace Pipeline

variable {pipeline next : Pipeline} {past events : List Event} {move : Move}

/-- Nobody can make a step, and no call is in progress. -/
structure Still (pipeline : Pipeline) : Prop where
  steps : ∀ move, move.own = true → pipeline.move? move = none
  calls : pipeline.applied = []

/-- Nobody can make a step, but calls may be in progress. -/
def Quiet (pipeline : Pipeline) : Prop := ∀ move, move.own = true → pipeline.move? move = none

theorem Still.quiet (still : pipeline.Still) : pipeline.Quiet := still.steps

/-- Every closing call has returned, every worker has ended, and no request has still to be
answered. -/
structure WoundUp (pipeline : Pipeline) : Prop where
  returned : ∀ call ∈ pipeline.closers, call.progress = .returned
  gone : ∀ phase ∈ pipeline.workers, phase.gone = true
  granted : pipeline.granted = []
  waiting : pipeline.waiting = []

/-- The line and the parties agree on who waits for the lock, and what a closing call has told
the others holds from then on. -/
structure Coherent (pipeline : Pipeline) : Prop where
  room : 0 < pipeline.capacity
  once : pipeline.line.Nodup
  standing : ∀ worker : Nat, .worker worker ∈ pipeline.line ↔
    ∃ phase : Phase, pipeline.workers[worker]? = some phase ∧ phase.stands = true
  inLine : ∀ closer : Nat, .closer closer ∈ pipeline.line ↔
    pipeline.progress? closer = some .inLine
  joining : ∀ closer workers, pipeline.progress? closer = some (.joining workers) →
    ∀ worker ∈ workers, worker < pipeline.workers.length
  shut : pipeline.closers ≠ [] → pipeline.intake = false
  sealed : ∀ closer, pipeline.progress? closer = some .returned → pipeline.sealed = true

theorem coherent_start (settings : DeletionSettings) : Coherent (start settings) := by
  constructor
  · exact Nat.lt_of_lt_of_le Nat.zero_lt_one (Nat.le_max_left 1 settings.queueCapacity)
  · simp [start]
  · intro worker
    simp [start, List.getElem?_replicate, Phase.stands]
  · intro closer
    simp [start, progress?]
  · intro closer workers called
    simp [start, progress?] at called
  · simp [start]
  · intro closer called
    simp [start, progress?] at called

theorem standing_set {worker : Nat} {old : Phase}
    (held : pipeline.workers[worker]? = some old) (phase : Phase) (other : Nat) :
    (∃ new : Phase, (pipeline.workers.set worker phase)[other]? = some new ∧ new.stands = true) ↔
      if worker = other then phase.stands = true
      else ∃ same : Phase, pipeline.workers[other]? = some same ∧ same.stands = true := by
  have inside := (List.getElem?_eq_some_iff.1 held).1
  split
  · rename_i same
    subst same
    simp [List.getElem?_set_self inside]
  · rename_i apart
    rw [List.getElem?_set_ne apart]

theorem standing_same {worker : Nat} {old : Phase}
    (held : pipeline.workers[worker]? = some old) (phase : Phase)
    (same : phase.stands = old.stands) (other : Nat) :
    (∃ new : Phase, (pipeline.workers.set worker phase)[other]? = some new ∧ new.stands = true) ↔
      ∃ before : Phase, pipeline.workers[other]? = some before ∧ before.stands = true := by
  rw [standing_set held]
  split
  · rename_i here
    subst here
    simp [held, same]
  · rfl

theorem Coherent.outside (coherent : pipeline.Coherent) {worker : Nat} {phase : Phase}
    (held : pipeline.workers[worker]? = some phase) (away : phase.stands = false) :
    .worker worker ∉ pipeline.line := by
  rw [coherent.standing]
  rintro ⟨other, found, stands⟩
  obtain rfl := Option.some.inj (held.symm.trans found)
  rw [away] at stands
  cases stands

theorem nodup_behind {line : List Party} {party : Party} (once : line.Nodup)
    (new : party ∉ line) : (line ++ [party]).Nodup := by
  rw [← List.concat_eq_append, List.nodup_concat]
  exact ⟨new, once⟩

theorem once_moved (coherent : pipeline.Coherent) (moved : Moved pipeline move next events) :
    next.line.Nodup := by
  have once := coherent.once
  cases moved with
  | listen cleared => exact nodup_behind once (coherent.outside cleared rfl)
  | take head =>
    rw [head] at once
    exact (List.nodup_cons.1 once).2
  | leaveListening | leavePoised => exact once.erase _
  | @queueUp closer all =>
    have new : .closer closer ∉ pipeline.line := by
      rw [coherent.inLine, all]
      simp
    exact nodup_behind once new
  | discard head =>
    rw [head] at once
    exact (List.nodup_cons.1 once).2
  | _ => exact once

theorem unlined_standing (coherent : pipeline.Coherent) {worker : Nat} {old : Phase}
    (held : pipeline.workers[worker]? = some old) {line : List Party}
    (gone : .worker worker ∉ line)
    (others : ∀ other, other ≠ worker → (.worker other ∈ line ↔ .worker other ∈ pipeline.line))
    {phase : Phase} (away : phase.stands = false) (other : Nat) :
    .worker other ∈ line ↔ ∃ new : Phase,
      (pipeline.workers.set worker phase)[other]? = some new ∧ new.stands = true := by
  rw [standing_set held]
  split
  · rename_i same
    subst same
    simp [gone, away]
  · rename_i apart
    rw [others other (Ne.symm apart), coherent.standing]

theorem standing_moved (coherent : pipeline.Coherent) (moved : Moved pipeline move next events)
    (worker : Nat) :
    .worker worker ∈ next.line ↔
      ∃ phase : Phase, next.workers[worker]? = some phase ∧ phase.stands = true := by
  have before := coherent.standing worker
  have once := coherent.once
  cases moved with
  | look ready => exact before.trans (standing_same ready .cleared rfl worker).symm
  | lookAgain listening | wake listening =>
    exact before.trans (standing_same listening .poised rfl worker).symm
  | pause poised => exact before.trans (standing_same poised .listening rfl worker).symm
  | leaveReady ready => exact before.trans (standing_same ready .finished rfl worker).symm
  | finish outcome applying =>
    exact before.trans (standing_same applying _ (by split <;> rfl) worker).symm
  | listen cleared =>
    rw [standing_set cleared, List.mem_append, List.mem_singleton, Party.worker.injEq, before]
    split
    · rename_i same
      simp [same, Phase.stands]
    · rename_i apart
      simp [Ne.symm apart]
  | @take own entry behind later head queued poised =>
    rw [head] at once
    have out := (List.nodup_cons.1 once).1
    refine unlined_standing coherent poised out ?_ rfl worker
    intro other apart
    simp [head, apart]
  | @leaveListening own held | @leavePoised own held =>
    refine unlined_standing coherent held (List.Nodup.not_mem_erase once) ?_ rfl worker
    intro other apart
    exact List.mem_erase_of_ne (by simpa using apart)
  | signal | takeOver | comeLate | join => simpa [setProgress] using before
  | queueUp => simpa [setProgress] using before
  | discard head =>
    rw [head] at before
    simpa [setProgress] using before
  | _ => exact before

theorem inLine_setProgress (coherent : pipeline.Coherent) {own : Nat} {old : Progress}
    (held : pipeline.progress? own = some old) (before : old ≠ .inLine) {progress : Progress}
    (after : progress ≠ .inLine) (closer : Nat) :
    .closer closer ∈ pipeline.line ↔
      (pipeline.setProgress own progress).progress? closer = some .inLine := by
  rw [progress_setProgress, coherent.inLine]
  split
  · rename_i same
    subst same
    simp [held, before, after]
  · rfl

theorem inLine_moved (coherent : pipeline.Coherent) (moved : Moved pipeline move next events)
    (closer : Nat) : .closer closer ∈ next.line ↔ next.progress? closer = some .inLine := by
  have before := coherent.inLine closer
  have once := coherent.once
  cases moved with
  | listen => simpa [progress?] using before
  | take head =>
    rw [head] at before
    simpa [progress?] using before
  | leaveListening | leavePoised =>
    apply Iff.trans _ before
    exact List.mem_erase_of_ne (by simp)
  | close kind =>
    show .closer closer ∈ pipeline.line ↔
      (pipeline.close kind).1.progress? closer = some .inLine
    rw [progress_close, before]
    split
    · rename_i new
      cases kind <;> simp [progress?, new]
    · rfl
  | signal due => exact inLine_setProgress coherent due (by simp) (by simp) closer
  | takeOver due => exact inLine_setProgress coherent due (by simp) (by simp) closer
  | comeLate due => exact inLine_setProgress coherent due (by simp) (by simp) closer
  | join crashed following =>
    exact inLine_setProgress coherent following (by simp) (by simp) closer
  | @queueUp own all =>
    show .closer closer ∈ pipeline.line ++ [.closer own] ↔
      (pipeline.setProgress own .inLine).progress? closer = some .inLine
    rw [progress_setProgress, List.mem_append, List.mem_singleton, Party.closer.injEq, before]
    split
    · rename_i same
      subst same
      simp [all]
    · rename_i apart
      simp [Ne.symm apart]
  | @discard own kind behind head called =>
    show .closer closer ∈ behind ↔
      (pipeline.setProgress own .returned).progress? closer = some .inLine
    rw [head] at once before
    rw [progress_setProgress]
    split
    · rename_i same
      subst same
      have out := (List.nodup_cons.1 once).1
      simp [out, progress_inLine called]
    · rename_i apart
      rw [← before]
      simp [Ne.symm apart]
  | _ => exact before

theorem joining_moved (coherent : pipeline.Coherent) (moved : Moved pipeline move next events)
    {closer : Nat} {workers : List Nat} (called : next.progress? closer = some (.joining workers)) :
    ∀ worker ∈ workers, worker < next.workers.length := by
  rw [workers_length moved]
  rcases progress_moved moved called with
    before | ⟨kind, _, _, new⟩ | ⟨earlier, held, ⟨_, _, taken⟩ | ⟨worker, phase, _, rfl, _⟩⟩
  · exact coherent.joining closer workers before
  · split at new <;> cases new
  · intro worker real
    rw [taken] at real
    split at real
    · exact List.mem_range.1 real
    · cases real
  · intro other member
    exact coherent.joining closer _ held other (List.mem_cons_of_mem worker member)

theorem sealed_stays (moved : Moved pipeline move next events)
    (shut : pipeline.sealed = true) : next.sealed = true := by
  cases moved with
  | discard => rfl
  | _ => exact shut

theorem returned_sealed (coherent : pipeline.Coherent) (moved : Moved pipeline move next events)
    {closer : Nat} (called : next.progress? closer = some .returned) : next.sealed = true := by
  rcases progress_moved moved called with before | ⟨kind, _, _, new⟩ | ⟨earlier, _, rfl, _⟩
  · exact sealed_stays moved (coherent.sealed closer before)
  · split at new <;> cases new
  · cases moved with
    | discard => rfl

theorem coherent_moved (coherent : pipeline.Coherent) (moved : Moved pipeline move next events) :
    next.Coherent := by
  constructor
  · have room := coherent.room
    cases moved <;> exact room
  · exact once_moved coherent moved
  · exact standing_moved coherent moved
  · exact inLine_moved coherent moved
  · intro closer workers called
    exact joining_moved coherent moved called
  · intro called
    cases moved with
    | close | abandon => rfl
    | signal | takeOver | comeLate | join | queueUp | discard =>
      exact coherent.shut (by simpa [setProgress] using called)
    | turnAway request shut => exact shut
    | _ => exact coherent.shut called
  · intro closer called
    exact returned_sealed coherent moved called

theorem coherent_of_run {settings : DeletionSettings} {moves : List Move}
    (ran : run? moves (start settings) = some (next, events)) : next.Coherent :=
  run_keeps_always (fun pipeline _ => pipeline.Coherent) coherent_moved []
    (coherent_start settings) ran

theorem Quiet.unmoved (quiet : pipeline.Quiet) (moved : Moved pipeline move next events) :
    move.own = false := by
  by_contra own
  have stuck := quiet move (by simpa using own)
  rw [move_of_moved moved] at stuck
  cases stuck

theorem Still.not_applying (still : pipeline.Still) (worker : Nat) (entry : Entry) :
    pipeline.workers[worker]? ≠ some (.applying entry) := by
  intro applies
  have listed : entry ∈ pipeline.applied := by
    apply List.mem_flatMap.2
    exact ⟨.applying entry, List.mem_of_getElem? applies, by simp [Phase.entry?]⟩
  rw [still.calls] at listed
  cases listed

theorem Quiet.none_granted (quiet : pipeline.Quiet) : pipeline.granted = [] := by
  cases holds : pipeline.granted with
  | nil => rfl
  | cons entry later => cases quiet.unmoved (.deliver holds)

/-- The head of the line is a worker that waits for a request. -/
theorem Quiet.head_waits (quiet : pipeline.Quiet) (coherent : pipeline.Coherent) {party : Party}
    {behind : List Party} (head : pipeline.line = party :: behind) :
    pipeline.stopping = false ∧ pipeline.queue = [] ∧ pipeline.exhausted = false ∧
      ∃ worker, party = .worker worker := by
  have stands : party ∈ pipeline.line := by
    rw [head]
    exact List.mem_cons_self
  cases party with
  | closer closer =>
    rcases Option.map_eq_some_iff.1 ((coherent.inLine closer).1 stands) with
      ⟨⟨kind, progress⟩, called, waits⟩
    obtain rfl : progress = .inLine := waits
    cases quiet.unmoved (.discard head called)
  | worker worker =>
    have first : pipeline.line.head? = some (.worker worker) := by rw [head]; rfl
    obtain ⟨phase, held, standing⟩ := (coherent.standing worker).1 stands
    cases phase with
    | listening =>
      have going : pipeline.stopping = false := by
        by_contra told
        cases quiet.unmoved (.leaveListening held (by simpa using told))
      have nothing : pipeline.finds worker = false := by
        by_contra found
        cases quiet.unmoved (.lookAgain held going (by simpa using found))
      simp only [finds, first, beq_self_eq_true, Bool.true_and, Bool.or_eq_false_iff,
        Bool.not_eq_false', List.isEmpty_iff] at nothing
      exact ⟨going, nothing.1, nothing.2, worker, rfl⟩
    | poised =>
      -- It would try the queue now, and be suspended if it found nothing.
      exfalso
      cases nothing : pipeline.finds worker with
      | false => cases quiet.unmoved (.pause held nothing)
      | true =>
        cases queued : pipeline.queue with
        | cons entry later => cases quiet.unmoved (.take head queued held)
        | nil =>
          simp only [finds, queued, List.isEmpty_nil, Bool.not_true, Bool.false_or,
            Bool.and_eq_true] at nothing
          cases quiet.unmoved (.leavePoised held first nothing.2)
    | ready | cleared | applying | finished | crashed => cases standing

theorem Quiet.full (quiet : pipeline.Quiet) (waits : pipeline.waiting ≠ []) :
    pipeline.capacity ≤ pipeline.queue.length := by
  rcases List.exists_cons_of_ne_nil waits with ⟨entry, later, waiting⟩
  by_contra room
  have free : pipeline.queue.length + pipeline.granted.length < pipeline.capacity := by
    rw [quiet.none_granted]
    exact Nat.lt_of_not_le room
  cases shut : pipeline.sealed with
  | true => cases quiet.unmoved (.refuse waiting shut)
  | false => cases quiet.unmoved (.grant waiting shut free)

theorem Quiet.nobody_waits (quiet : pipeline.Quiet) (coherent : pipeline.Coherent)
    (empty : pipeline.queue = []) : pipeline.waiting = [] := by
  by_contra waits
  have full := quiet.full waits
  rw [empty] at full
  exact absurd coherent.room (Nat.not_lt_of_le full)

/-- Once the intake has ended nobody is left in line, as nothing will come. -/
theorem Quiet.line_empty (quiet : pipeline.Quiet) (coherent : pipeline.Coherent)
    (shut : pipeline.intake = false) : pipeline.line = [] := by
  cases head : pipeline.line with
  | nil => rfl
  | cons party behind =>
    rcases quiet.head_waits coherent head with ⟨_, empty, waits, _⟩
    have none := quiet.nobody_waits coherent empty
    simp [exhausted, empty, shut, none, quiet.none_granted] at waits

/-- A worker that does not stand in line is in a call or has ended. -/
theorem Quiet.busy_or_gone (quiet : pipeline.Quiet) (coherent : pipeline.Coherent)
    (empty : pipeline.line = []) {worker : Nat} {phase : Phase}
    (held : pipeline.workers[worker]? = some phase) :
    (∃ entry, phase = .applying entry) ∨ phase.gone = true := by
  cases phase with
  | ready =>
    exfalso
    cases told : pipeline.stopping with
    | true => cases quiet.unmoved (.leaveReady held told)
    | false => cases quiet.unmoved (.look held told)
  | cleared => cases quiet.unmoved (.listen held)
  | poised | listening =>
    have stands := (coherent.standing worker).2 ⟨_, held, rfl⟩
    rw [empty] at stands
    cases stands
  | applying entry => exact .inl ⟨entry, rfl⟩
  | finished | crashed => exact .inr rfl

theorem Still.workers_gone (still : pipeline.Still) (coherent : pipeline.Coherent)
    (empty : pipeline.line = []) {worker : Nat} {phase : Phase}
    (held : pipeline.workers[worker]? = some phase) : phase.gone = true := by
  rcases still.quiet.busy_or_gone coherent empty held with ⟨entry, rfl⟩ | gone
  · exact absurd held (still.not_applying worker entry)
  · exact gone

theorem Still.closers_returned (still : pipeline.Still) (coherent : pipeline.Coherent)
    (empty : pipeline.line = [])
    {closer : Nat} {progress : Progress} (called : pipeline.progress? closer = some progress) :
    progress = .returned := by
  cases progress with
  | signalling => cases still.quiet.unmoved (.signal called)
  | summoning =>
    by_cases kept : pipeline.custody = .kept
    · cases still.quiet.unmoved (.takeOver called kept)
    · cases still.quiet.unmoved (.comeLate called kept)
  | joining workers =>
    exfalso
    cases workers with
    | nil => cases still.quiet.unmoved (.queueUp called)
    | cons worker rest =>
      -- The worker it waits for has ended, so it would go on to the next.
      have real := coherent.joining closer _ called worker List.mem_cons_self
      have held := List.getElem?_eq_getElem real
      have gone := still.workers_gone coherent empty held
      cases ended : pipeline.workers[worker] with
      | finished =>
        rw [ended] at held
        cases still.quiet.unmoved (.join false called held)
      | crashed =>
        rw [ended] at held
        cases still.quiet.unmoved (.join true called held)
      | _ =>
        rw [ended] at gone
        cases gone
  | inLine =>
    have stands := (coherent.inLine closer).2 called
    rw [empty] at stands
    cases stands
  | returned => rfl

theorem progress_of_closers {closer : Nat} {call : Closer}
    (held : pipeline.closers[closer]? = some call) :
    pipeline.progress? closer = some call.progress := by
  rw [progress?, held]
  rfl

theorem woundUp_of_still (coherent : pipeline.Coherent)
    (closing : pipeline.closers ≠ []) (still : pipeline.Still) : pipeline.WoundUp := by
  have empty := still.quiet.line_empty coherent (coherent.shut closing)
  have returned : ∀ call ∈ pipeline.closers, call.progress = .returned := by
    intro call member
    rcases List.getElem?_of_mem member with ⟨closer, held⟩
    exact still.closers_returned coherent empty (progress_of_closers held)
  refine ⟨returned, ?_, still.quiet.none_granted, ?_⟩
  · intro phase member
    rcases List.getElem?_of_mem member with ⟨worker, held⟩
    exact still.workers_gone coherent empty held
  · -- Some call has returned, so the queue is sealed and whoever waits would be refused.
    cases waits : pipeline.waiting with
    | nil => rfl
    | cons entry later =>
      rcases List.exists_mem_of_ne_nil _ closing with ⟨call, member⟩
      rcases List.getElem?_of_mem member with ⟨closer, held⟩
      have called := progress_of_closers held
      rw [returned call member] at called
      cases still.quiet.unmoved (.refuse waits (coherent.sealed closer called))

theorem WoundUp.progress_returned (wound : pipeline.WoundUp) {closer : Nat} {progress : Progress}
    (called : pipeline.progress? closer = some progress) : progress = .returned := by
  rcases Option.map_eq_some_iff.1 called with ⟨call, held, rfl⟩
  exact wound.returned call (List.mem_of_getElem? held)

theorem still_of_woundUp (wound : pipeline.WoundUp) : pipeline.Still := by
  have gone : ∀ {worker : Nat} {phase : Phase}, pipeline.workers[worker]? = some phase →
      phase.gone = true :=
    fun held => wound.gone _ (List.mem_of_getElem? held)
  constructor
  · intro move own
    by_contra possible
    rcases Option.ne_none_iff_exists'.1 possible with ⟨⟨next, events⟩, stepped⟩
    cases moved_of_move stepped with
    | grant waits | refuse waits =>
      rw [wound.waiting] at waits
      cases waits
    | deliver holds =>
      rw [wound.granted] at holds
      cases holds
    | look held | lookAgain held | listen held | pause held | leaveReady held
    | leaveListening held | leavePoised held => cases gone held
    | take head queued held => cases gone held
    | signal called | takeOver called | comeLate called | join crashed called
    | queueUp called => cases wound.progress_returned called
    | discard head called => cases wound.returned _ (List.mem_of_getElem? called)
    | turnAway | passOver | bring | wake | finish | close | abandon => cases own
  · apply List.flatMap_eq_nil_iff.2
    intro phase member
    rw [Phase.entry_of_gone (wound.gone phase member)]
    rfl

/-- Nobody gets a permit of a sealed queue any more: what is taken out of it from then on, what is
in it and what is still to come make up what it was sealed with. -/
theorem sealed_moved (shut : pipeline.sealed = true) (moved : Moved pipeline move next events) :
    takenOut events ++ (next.queue ++ next.granted) = pipeline.queue ++ pipeline.granted := by
  cases moved with
  | grant waits unsealed =>
    rw [shut] at unsealed
    cases unsealed
  | deliver holds => simp [takenOut, Event.removes, holds]
  | take head queued => simp [takenOut, Event.removes, queued]
  | discard => simp [takenOut, Event.removes, setProgress]
  | _ => rfl

theorem sealed_run (shut : pipeline.sealed = true) {moves : List Move}
    (ran : run? moves pipeline = some (next, events)) :
    takenOut events ++ (next.queue ++ next.granted) = pipeline.queue ++ pipeline.granted := by
  have kept := run_keeps_always
    (fun now past => now.sealed = true ∧
      takenOut past ++ (now.queue ++ now.granted) = pipeline.queue ++ pipeline.granted)
    ?_ [] ⟨shut, rfl⟩ ran
  · exact kept.2
  · rintro now after past events move ⟨shut, whole⟩ moved
    refine ⟨sealed_stays moved shut, ?_⟩
    have step := sealed_moved shut moved
    rw [takenOut_append, List.append_assoc, step, whole]

theorem emptied_by_discard {closer : Nat} (moved : Moved pipeline (.discard closer) next events) :
    next.queue = [] ∧ next.sealed = true ∧ next.granted = pipeline.granted := by
  cases moved with
  | discard => exact ⟨rfl, rfl, rfl⟩

/-- A run up to the point where a closing call empties the queue, and what comes behind it. -/
theorem run_at_discard {before after : List Move} {closer : Nat}
    (ran : run? (before ++ .discard closer :: after) pipeline = some (next, events)) :
    ∃ emptied early late, run? (before ++ [.discard closer]) pipeline = some (emptied, early) ∧
      run? after emptied = some (next, late) ∧
        takenOut late ++ (next.queue ++ next.granted) = emptied.granted := by
  rw [List.append_cons] at ran
  rcases run_append ran with ⟨emptied, early, late, front, back, _⟩
  rcases run_snoc front with ⟨between, past, last, _, moved, _⟩
  rcases emptied_by_discard (moved_of_move moved) with ⟨empty, shut, _⟩
  refine ⟨emptied, early, late, front, back, ?_⟩
  have whole := sealed_run shut back
  rwa [empty, List.nil_append] at whole

theorem discard_of_returned {settings : DeletionSettings} {moves : List Move}
    (ran : run? moves (start settings) = some (next, events)) {closer : Nat}
    (returned : next.progress? closer = some .returned) : .discard closer ∈ moves := by
  induction moves using List.reverseRecOn generalizing next events with
  | nil =>
    cases ran
    cases returned
  | append_singleton moves move induction =>
    rcases run_snoc ran with ⟨between, past, last, front, moved, _⟩
    rcases progress_moved (moved_of_move moved) returned with
      before | ⟨kind, _, _, new⟩ | ⟨earlier, _, rfl, _⟩
    · exact List.mem_append_left _ (induction front before)
    · split at new <;> cases new
    · exact List.mem_append_right _ List.mem_cons_self

/-- What is left in the queue: at every closing call that has emptied it, the requests that held
their permits have been taken out since, or are still there. -/
def LeavesLate (settings : DeletionSettings) (moves : List Move) (pipeline : Pipeline) : Prop :=
  (∃ closer, .discard closer ∈ moves) ∧
    ∀ before closer after, moves = before ++ .discard closer :: after →
      ∃ emptied early late,
        run? (before ++ [.discard closer]) (start settings) = some (emptied, early) ∧
          run? after emptied = some (pipeline, late) ∧
            takenOut late ++ pipeline.queue = emptied.granted

theorem leavesLate_of_woundUp {settings : DeletionSettings} {moves : List Move}
    (ran : run? moves (start settings) = some (pipeline, past))
    (closing : pipeline.closers ≠ []) (wound : pipeline.WoundUp) :
    LeavesLate settings moves pipeline := by
  constructor
  · rcases List.exists_mem_of_ne_nil _ closing with ⟨call, member⟩
    rcases List.getElem?_of_mem member with ⟨closer, held⟩
    have called := progress_of_closers held
    rw [wound.returned call member] at called
    exact ⟨closer, discard_of_returned ran called⟩
  · rintro before closer after rfl
    rcases run_at_discard ran with ⟨emptied, early, late, front, back, whole⟩
    rw [wound.granted, List.append_nil] at whole
    exact ⟨emptied, early, late, front, back, whole⟩

/-- A pipeline on which a closing call has begun is still exactly when it is wound up, whatever
has happened on it, and then nothing is left in the queue but what was delivered too late; and no
more steps and ends of calls are left before it than its weight. -/
theorem closing_leaves_only_late {settings : DeletionSettings} {moves : List Move}
    (ran : run? moves (start settings) = some (pipeline, past))
    (closing : pipeline.closers ≠ []) :
    (pipeline.Still ↔ pipeline.WoundUp) ∧
      (pipeline.Still → LeavesLate settings moves pipeline) ∧
      ∀ steps last made, (∀ move ∈ steps, Move.inner move = true) →
        run? steps pipeline = some (last, made) → steps.length + last.weight ≤ pipeline.weight := by
  have coherent := coherent_of_run ran
  refine ⟨⟨?_, ?_⟩, ?_, ?_⟩
  · intro still
    exact woundUp_of_still coherent closing still
  · intro wound
    exact still_of_woundUp wound
  · intro still
    exact leavesLate_of_woundUp ran closing (woundUp_of_still coherent closing still)
  · intro steps last made inner onward
    exact length_inner inner onward

/-- The only worker panics while one request is queued and one waits for a permit, and a drain and
a stop overlap. -/
def deserted : List Move :=
  brings ⟨"u1", [⟨"a"⟩]⟩ ++ takes 0 ++ brings ⟨"u1", [⟨"b"⟩]⟩ ++
    [.accept ⟨"u2", [⟨"c"⟩]⟩, .close .drain, .takeOver 0, .close .stop, .signal 1,
      .finish 0 .panicked, .takeOver 1, .queueUp 1, .discard 1, .refuse, .join 0, .queueUp 0,
      .discard 0]

theorem closing_without_workers_ends :
    ∃ pipeline past, run? deserted (start ⟨1, 1⟩) = some (pipeline, past) ∧
      pipeline.closers ≠ [] ∧ pipeline.WoundUp ∧ pipeline.Still ∧
        LeavesLate ⟨1, 1⟩ deserted pipeline ∧
        (discarded past).map Entry.ticket = [1] ∧ (refused past).map Entry.ticket = [2] := by
  obtain ⟨pipeline, past, ran, closing, wound, lost⟩ : ∃ pipeline past,
      run? deserted (start ⟨1, 1⟩) = some (pipeline, past) ∧
        pipeline.closers ≠ [] ∧ pipeline.WoundUp ∧
        (discarded past).map Entry.ticket = [1] ∧ (refused past).map Entry.ticket = [2] :=
    ⟨_, _, rfl, by decide, ⟨by decide, by decide, rfl, rfl⟩, rfl, rfl⟩
  have ends := closing_leaves_only_late ran closing
  have still := ends.1.2 wound
  exact ⟨pipeline, past, ran, closing, wound, still, ends.2.1 still, lost⟩

/-- A request has its permit when a stop begins, and delivers after the stop has emptied the
queue. -/
def belated : List Move :=
  [.accept ⟨"u1", [⟨"a"⟩]⟩, .grant, .close .stop, .signal 0, .takeOver 0, .leave 0, .join 0,
    .queueUp 0, .discard 0, .deliver]

/-- Its call succeeds, and nobody will ever take the request or count it. -/
theorem late_request_is_left :
    ∃ pipeline past, run? belated (start ⟨1, 1⟩) = some (pipeline, past) ∧
      pipeline.closers ≠ [] ∧ pipeline.Still ∧ pipeline.queue = [⟨0, ⟨"u1", [⟨"a"⟩]⟩⟩] ∧
        accepted past = [⟨0, ⟨"u1", [⟨"a"⟩]⟩⟩] ∧ begun past = [] ∧ discarded past = [] := by
  obtain ⟨pipeline, past, ran, closing, wound, queued, taken, none⟩ : ∃ pipeline past,
      run? belated (start ⟨1, 1⟩) = some (pipeline, past) ∧ pipeline.closers ≠ [] ∧
        pipeline.WoundUp ∧ pipeline.queue = [⟨0, ⟨"u1", [⟨"a"⟩]⟩⟩] ∧
        accepted past = [⟨0, ⟨"u1", [⟨"a"⟩]⟩⟩] ∧ begun past = [] ∧ discarded past = [] :=
    ⟨_, _, rfl, by decide, ⟨by decide, by decide, rfl, rfl⟩, rfl, rfl, rfl, rfl⟩
  exact ⟨pipeline, past, ran, closing, still_of_woundUp wound, queued, taken, none⟩

end Pipeline

end ShortLinks.Deletion
