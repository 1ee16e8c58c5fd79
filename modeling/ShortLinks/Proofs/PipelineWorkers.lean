import ShortLinks.Deletion.Schedule
import ShortLinks.Proofs.PipelineMoves
import Mathlib.Data.List.Basic

/-!
# How workers end, and who sees it

A worker that has finished or crashed never does anything again. The closing call that takes the
workers over comes to wait for the lock only after it has seen every one of them end. It need not
be the one that began first.
-/

namespace ShortLinks.Deletion

set_option autoImplicit false

/-- The worker will do nothing more. -/
def Phase.gone : Phase → Bool
  | finished | crashed => true
  | _ => false

theorem Phase.entry_of_gone {phase : Phase} (gone : phase.gone = true) : phase.entry? = none := by
  cases phase with
  | applying entry => cases gone
  | _ => rfl

/-- The workers that a closing call has not yet seen end. -/
def Progress.remaining : Progress → List Nat
  | joining workers => workers
  | _ => []

/-- The closing call has been to take the workers over. -/
def Progress.summoned : Progress → Bool
  | signalling | summoning => false
  | joining _ | inLine | returned => true

namespace Pipeline

variable {pipeline next : Pipeline} {events : List Event} {move : Move}

theorem workers_moved (moved : Moved pipeline move next events) :
    next.workers = pipeline.workers ∨
      ∃ worker old phase, pipeline.workers[worker]? = some old ∧ old.gone = false ∧
        next.workers = pipeline.workers.set worker phase ∧
        (phase = .finished → move = .leave worker) ∧
        (phase = .crashed → move = .finish worker .panicked) := by
  cases moved with
  | @look worker ready =>
    exact .inr ⟨worker, .ready, .cleared, ready, rfl, rfl, by simp, by simp⟩
  | @lookAgain worker listening =>
    exact .inr ⟨worker, .listening, .poised, listening, rfl, rfl, by simp, by simp⟩
  | @listen worker cleared =>
    exact .inr ⟨worker, .cleared, .poised, cleared, rfl, rfl, by simp, by simp⟩
  | @pause worker poised =>
    exact .inr ⟨worker, .poised, .listening, poised, rfl, rfl, by simp, by simp⟩
  | @wake worker listening =>
    exact .inr ⟨worker, .listening, .poised, listening, rfl, rfl, by simp, by simp⟩
  | @take worker entry behind later head queued poised =>
    exact .inr ⟨worker, .poised, .applying entry, poised, rfl, rfl, by simp, by simp⟩
  | @leaveReady worker ready =>
    exact .inr ⟨worker, .ready, .finished, ready, rfl, rfl, by simp, by simp⟩
  | @leaveListening worker listening =>
    exact .inr ⟨worker, .listening, .finished, listening, rfl, rfl, by simp, by simp⟩
  | @leavePoised worker poised =>
    exact .inr ⟨worker, .poised, .finished, poised, rfl, rfl, by simp, by simp⟩
  | @finish worker entry outcome applying =>
    refine .inr ⟨worker, .applying entry, _, applying, rfl, rfl, ?_, ?_⟩
    · split <;> simp
    · split
      · rename_i panicked
        simp [panicked]
      · simp
  | _ => exact .inl rfl

theorem workers_length (moved : Moved pipeline move next events) :
    next.workers.length = pipeline.workers.length := by
  rcases workers_moved moved with same | ⟨worker, old, phase, _, _, set, _⟩
  · rw [same]
  · rw [set, List.length_set]

theorem gone_stays (moved : Moved pipeline move next events) {worker : Nat} {phase : Phase}
    (held : pipeline.workers[worker]? = some phase) (gone : phase.gone = true) :
    next.workers[worker]? = some phase := by
  rcases workers_moved moved with same | ⟨changed, old, new, found, working, set, _⟩
  · rw [same, held]
  · have other : changed ≠ worker := by
      rintro rfl
      rw [held, Option.some.injEq] at found
      rw [found, working] at gone
      cases gone
    rw [set, List.getElem?_set_ne other, held]

theorem phase_after_set {workers : List Phase} {changed worker : Nat} {new phase : Phase}
    (held : (workers.set changed new)[worker]? = some phase) :
    workers[worker]? = some phase ∨ changed = worker ∧ phase = new := by
  by_cases here : changed = worker
  · subst here
    have inside := (List.getElem?_eq_some_iff.1 held).1
    rw [List.length_set] at inside
    rw [List.getElem?_set_self inside, Option.some.injEq] at held
    exact .inr ⟨rfl, held.symm⟩
  · rw [List.getElem?_set_ne here] at held
    exact .inl held

theorem phase_before (moved : Moved pipeline move next events) {worker : Nat} {phase : Phase}
    (held : next.workers[worker]? = some phase) :
    pipeline.workers[worker]? = some phase ∨
      (phase = .finished → move = .leave worker) ∧
        (phase = .crashed → move = .finish worker .panicked) := by
  rcases workers_moved moved with same | ⟨changed, old, new, _, _, set, leaves, panics⟩
  · rw [← same]
    exact .inl held
  · rw [set] at held
    rcases phase_after_set held with before | ⟨rfl, rfl⟩
    · exact .inl before
    · exact .inr ⟨leaves, panics⟩

theorem progress_setProgress (pipeline : Pipeline) (closer other : Nat) (progress : Progress) :
    (pipeline.setProgress closer progress).progress? other =
      if closer = other then (pipeline.progress? other).map fun _ => progress
      else pipeline.progress? other := by
  simp only [progress?, setProgress, List.getElem?_modify]
  split <;> cases pipeline.closers[other]? <;> rfl

theorem progress_set_self {closer : Nat} {before : Progress}
    (held : pipeline.progress? closer = some before) (after : Progress) :
    (pipeline.setProgress closer after).progress? closer = some after := by
  rw [progress_setProgress, if_pos rfl, held]
  rfl

theorem progress_after_set {own closer : Nat} {before after progress : Progress}
    (held : pipeline.progress? own = some before)
    (reached : (pipeline.setProgress own after).progress? closer = some progress) :
    pipeline.progress? closer = some progress ∨ own = closer ∧ progress = after := by
  rw [progress_setProgress] at reached
  split at reached
  · rename_i same
    subst same
    rw [held, Option.map_some, Option.some.injEq] at reached
    exact .inr ⟨rfl, reached.symm⟩
  · exact .inl reached

theorem progress_close (pipeline : Pipeline) (kind : Closing) (closer : Nat) :
    (pipeline.close kind).1.progress? closer =
      if closer = pipeline.closers.length then
        some (if kind = .stop then .signalling else .summoning)
      else pipeline.progress? closer := by
  unfold close progress?
  rw [List.getElem?_append]
  by_cases early : closer < pipeline.closers.length
  · rw [if_pos early, if_neg (Nat.ne_of_lt early)]
  · rw [if_neg early]
    by_cases new : closer = pipeline.closers.length
    · simp [new]
    · have behind : 1 ≤ closer - pipeline.closers.length := by omega
      rw [if_neg new, List.getElem?_eq_none behind, List.getElem?_eq_none (by omega)]

theorem progress_inLine {closer : Nat} {kind : Closing}
    (called : pipeline.closers[closer]? = some ⟨kind, .inLine⟩) :
    pipeline.progress? closer = some .inLine := by
  rw [progress?, called]
  rfl

theorem progress_moved (moved : Moved pipeline move next events) {closer : Nat}
    {progress : Progress} (called : next.progress? closer = some progress) :
    pipeline.progress? closer = some progress ∨
      (∃ kind, move = .close kind ∧ closer = pipeline.closers.length ∧
        progress = if kind = .stop then .signalling else .summoning) ∨
      ∃ before, pipeline.progress? closer = some before ∧
        match progress with
        | .signalling => False
        | .summoning => move = .signal closer ∧ before = .signalling
        | .joining workers =>
            move = .takeOver closer ∧ before = .summoning ∧
                workers = (if pipeline.custody = .kept then List.range pipeline.workers.length
                  else []) ∨
              ∃ (worker : Nat) (phase : Phase), move = .join closer ∧
                before = .joining (worker :: workers) ∧
                pipeline.workers[worker]? = some phase ∧ phase.gone = true
        | .inLine => move = .queueUp closer ∧ before = .joining []
        | .returned => move = .discard closer ∧ before = .inLine := by
  cases moved with
  | close kind =>
    have reached : (pipeline.close kind).1.progress? closer = some progress := called
    rw [progress_close] at reached
    split at reached
    · rename_i new
      exact .inr (.inl ⟨kind, rfl, new, (Option.some.inj reached).symm⟩)
    · exact .inl reached
  | signal due =>
    rcases progress_after_set due called with same | ⟨rfl, rfl⟩
    · exact .inl same
    · exact .inr (.inr ⟨_, due, rfl, rfl⟩)
  | takeOver due kept =>
    rcases progress_after_set due called with same | ⟨rfl, rfl⟩
    · exact .inl same
    · exact .inr (.inr ⟨_, due, .inl ⟨rfl, rfl, (if_pos kept).symm⟩⟩)
  | comeLate due late =>
    rcases progress_after_set due called with same | ⟨rfl, rfl⟩
    · exact .inl same
    · exact .inr (.inr ⟨_, due, .inl ⟨rfl, rfl, (if_neg late).symm⟩⟩)
  | @join own worker rest crashed following ended =>
    rcases progress_after_set following called with same | ⟨rfl, rfl⟩
    · exact .inl same
    · refine .inr (.inr ⟨_, following, .inr ⟨worker, _, rfl, rfl, ended, ?_⟩⟩)
      cases crashed <;> rfl
  | queueUp all =>
    rcases progress_after_set all called with same | ⟨rfl, rfl⟩
    · exact .inl same
    · exact .inr (.inr ⟨_, all, rfl, rfl⟩)
  | discard head standing =>
    rcases progress_after_set (progress_inLine standing) called with same | ⟨rfl, rfl⟩
    · exact .inl same
    · exact .inr (.inr ⟨_, progress_inLine standing, rfl, rfl⟩)
  | _ => exact .inl called

theorem closers_length_setProgress (pipeline : Pipeline) (closer : Nat) (progress : Progress) :
    (pipeline.setProgress closer progress).closers.length = pipeline.closers.length := by
  simp [setProgress]

theorem closers_grow (moved : Moved pipeline move next events) :
    pipeline.closers.length ≤ next.closers.length := by
  cases moved with
  | close kind => simp
  | signal | takeOver | comeLate | join | queueUp | discard =>
    exact Nat.le_of_eq (closers_length_setProgress pipeline _ _).symm
  | _ => exact Nat.le_refl _

theorem progress_stays (moved : Moved pipeline move next events) {closer : Nat}
    {progress : Progress} (called : pipeline.progress? closer = some progress) :
    ∃ after, next.progress? closer = some after := by
  obtain ⟨call, held, _⟩ := Option.map_eq_some_iff.1 called
  have inside := (List.getElem?_eq_some_iff.1 held).1
  have kept := List.getElem?_eq_getElem (Nat.lt_of_lt_of_le inside (closers_grow moved))
  exact ⟨_, by rw [progress?, kept]; rfl⟩

theorem custody_moved (moved : Moved pipeline move next events) {closer : Nat}
    (taken : next.custody = .taken closer) :
    pipeline.custody = .taken closer ∨
      pipeline.custody = .kept ∧ move = .takeOver closer ∧
        next.progress? closer = some (.joining (List.range pipeline.workers.length)) := by
  cases moved with
  | abandon =>
    dsimp only at taken
    split at taken
    · cases taken
    · exact .inl taken
  | @takeOver own due kept =>
    obtain rfl := Custody.taken.inj taken
    exact .inr ⟨kept, rfl, progress_set_self due _⟩
  | _ => exact .inl taken

/-- As long as the pipeline has its workers no call has been to take them over. The call that has
done so has seen all of them end but those it still waits for. -/
structure Joins (pipeline : Pipeline) : Prop where
  early : pipeline.custody = .kept → ∀ closer progress,
    pipeline.progress? closer = some progress → progress.summoned = false
  joined : ∀ closer, pipeline.custody = .taken closer → ∃ progress,
    pipeline.progress? closer = some progress ∧ progress.summoned = true ∧
      ∀ (worker : Nat) (phase : Phase), pipeline.workers[worker]? = some phase →
        worker ∈ progress.remaining ∨ phase.gone = true

theorem joins_start (settings : DeletionSettings) : Joins (start settings) := by
  constructor
  · intro _ closer progress called
    cases called
  · intro closer taken
    cases taken

theorem joined_kept (moved : Moved pipeline move next events) {remaining : List Nat}
    (before : ∀ (worker : Nat) (phase : Phase), pipeline.workers[worker]? = some phase →
      worker ∈ remaining ∨ phase.gone = true) :
    ∀ (worker : Nat) (phase : Phase), next.workers[worker]? = some phase →
      worker ∈ remaining ∨ phase.gone = true := by
  intro worker phase held
  have inside : worker < pipeline.workers.length := by
    rw [← workers_length moved]
    exact (List.getElem?_eq_some_iff.1 held).1
  have earlier : pipeline.workers[worker]? = some pipeline.workers[worker] :=
    List.getElem?_eq_getElem inside
  rcases before worker _ earlier with remains | gone
  · exact .inl remains
  · have same := gone_stays moved earlier gone
    rw [held, Option.some.injEq] at same
    rw [same]
    exact .inr gone

theorem early_moved (joins : pipeline.Joins) (moved : Moved pipeline move next events)
    (kept : next.custody = .kept) {closer : Nat} {progress : Progress}
    (called : next.progress? closer = some progress) : progress.summoned = false := by
  have before : pipeline.custody = .kept := by
    cases moved with
    | abandon =>
      dsimp only at kept
      split at kept
      · cases kept
      · exact kept
    | takeOver => cases kept
    | _ => exact kept
  rcases progress_moved moved called with same | ⟨kind, _, _, rfl⟩ | ⟨earlier, held, gone⟩
  · exact joins.early before closer progress same
  · split <;> rfl
  · have unsummoned := joins.early before closer earlier held
    cases progress with
    | signalling | summoning => rfl
    | joining workers =>
      rcases gone with ⟨rfl, rfl, _⟩ | ⟨worker, phase, _, rfl, _⟩
      · cases moved with
        | takeOver => cases kept
        | comeLate due late => exact absurd before late
      · cases unsummoned
    | inLine =>
      obtain ⟨_, rfl⟩ := gone
      cases unsummoned
    | returned =>
      obtain ⟨_, rfl⟩ := gone
      cases unsummoned

theorem joined_moved (joins : pipeline.Joins) (moved : Moved pipeline move next events)
    {closer : Nat} (taken : next.custody = .taken closer) :
    ∃ progress, next.progress? closer = some progress ∧ progress.summoned = true ∧
      ∀ (worker : Nat) (phase : Phase), next.workers[worker]? = some phase →
        worker ∈ progress.remaining ∨ phase.gone = true := by
  rcases custody_moved moved taken with before | ⟨kept, rfl, joining⟩
  · rcases joins.joined closer before with ⟨progress, called, summoned, seen⟩
    have still := joined_kept moved seen
    rcases progress_stays moved called with ⟨after, reached⟩
    rcases progress_moved moved reached with same | ⟨kind, _, rfl, _⟩ | ⟨earlier, held, gone⟩
    · obtain rfl := Option.some.inj (called.symm.trans same)
      exact ⟨progress, reached, summoned, still⟩
    · -- A call that has just begun was not there before.
      simp [progress?] at called
    · obtain rfl := Option.some.inj (called.symm.trans held)
      refine ⟨after, reached, ?_⟩
      cases after with
      | signalling => cases gone
      | summoning =>
        obtain ⟨_, rfl⟩ := gone
        cases summoned
      | joining workers =>
        refine ⟨rfl, ?_⟩
        rcases gone with ⟨_, rfl, _⟩ | ⟨worker, last, _, rfl, ended, done⟩
        · cases summoned
        · intro other phase found
          rcases still other phase found with remains | gone
          · rcases List.mem_cons.1 remains with rfl | later
            · rw [gone_stays moved ended done, Option.some.injEq] at found
              exact .inr (found ▸ done)
            · exact .inl later
          · exact .inr gone
      | inLine =>
        obtain ⟨_, rfl⟩ := gone
        exact ⟨rfl, still⟩
      | returned =>
        obtain ⟨_, rfl⟩ := gone
        exact ⟨rfl, still⟩
  · refine ⟨_, joining, rfl, ?_⟩
    intro worker phase held
    left
    rw [Progress.remaining, List.mem_range, ← workers_length moved]
    exact (List.getElem?_eq_some_iff.1 held).1

theorem joins_moved (joins : pipeline.Joins) (moved : Moved pipeline move next events) :
    next.Joins where
  early := fun kept _ _ called => early_moved joins moved kept called
  joined := fun _ taken => joined_moved joins moved taken

theorem joins_of_run {settings : DeletionSettings} {moves : List Move}
    (ran : run? moves (start settings) = some (next, events)) : next.Joins :=
  run_keeps_always (fun pipeline _ => pipeline.Joins) joins_moved [] (joins_start settings) ran

/-- Only a pipeline that was abandoned has workers that nobody will wait for. -/
theorem custody_of_run {settings : DeletionSettings} {moves : List Move}
    (held : ∀ move ∈ moves, move ≠ .abandon)
    (ran : run? moves (start settings) = some (next, events)) : next.custody ≠ .dropped := by
  apply run_keeps (fun now _ => now.custody ≠ .dropped) _
    (throughout_of_mem held (start settings)) [] (by simp [start]) ran
  intro pipeline next past events move kept used moved
  cases moved with
  | abandon => exact absurd rfl used
  | takeOver => simp
  | _ => exact kept

/-- Where the call that took the workers over has come to the lock, all of them have ended. -/
theorem Joins.all_gone (joins : pipeline.Joins) {closer : Nat} {progress : Progress}
    (taken : pipeline.custody = .taken closer) (called : pipeline.progress? closer = some progress)
    (all : progress.remaining = []) {worker : Nat} {phase : Phase}
    (held : pipeline.workers[worker]? = some phase) : phase.gone = true := by
  rcases joins.joined closer taken with ⟨reached, found, _, seen⟩
  obtain rfl := Option.some.inj (called.symm.trans found)
  rcases seen worker phase held with remains | gone
  · rw [all] at remains
    cases remains
  · exact gone

end Pipeline

end ShortLinks.Deletion
