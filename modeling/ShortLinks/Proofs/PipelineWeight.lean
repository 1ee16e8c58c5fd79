import ShortLinks.Deletion.Schedule
import ShortLinks.Proofs.PipelineMoves

/-!
# The schedule comes to an end

The work that is left grows smaller with every move that needs nothing from outside, and with
every end of a call in progress. So a pipeline that has settled is quiet, and one that has run has
no call in progress either.
-/

namespace ShortLinks.Deletion

set_option autoImplicit false

theorem addUp_cons (size : Nat) (sizes : List Nat) :
    addUp (size :: sizes) = size + addUp sizes := rfl

theorem addUp_set {α : Type} (size : α → Nat) (values : List α) (index : Nat) (old next : α)
    (held : values[index]? = some old) :
    addUp ((values.set index next).map size) + size old =
      addUp (values.map size) + size next := by
  induction values generalizing index with
  | nil => simp at held
  | cons first rest ih =>
    cases index with
    | zero =>
      simp only [List.getElem?_cons_zero, Option.some.injEq] at held
      subst held
      simp only [List.set_cons_zero, List.map_cons, addUp_cons]
      omega
    | succ index =>
      simp only [List.getElem?_cons_succ] at held
      have behind := ih index held
      simp only [List.set_cons_succ, List.map_cons, addUp_cons]
      omega

theorem addUp_modify {α : Type} (size : α → Nat) (values : List α) (index : Nat) (old : α)
    (change : α → α) (held : values[index]? = some old) :
    addUp ((values.modify index change).map size) + size old =
      addUp (values.map size) + size (change old) := by
  induction values generalizing index with
  | nil => simp at held
  | cons first rest ih =>
    cases index with
    | zero =>
      simp only [List.getElem?_cons_zero, Option.some.injEq] at held
      subst held
      simp only [List.modify_zero_cons, List.map_cons, addUp_cons]
      omega
    | succ index =>
      simp only [List.getElem?_cons_succ] at held
      have behind := ih index held
      simp only [List.modify_succ_cons, List.map_cons, addUp_cons]
      omega

namespace Pipeline

variable {pipeline next : Pipeline} {events : List Event} {move : Move}

/-- The head of the line stirs only one worker, so three are enough to make up for it. -/
theorem weight_lt_of_bulk (less : next.bulk + 3 ≤ pipeline.bulk) :
    next.weight < pipeline.weight := by
  unfold weight
  split <;> split <;> omega

theorem bulk_setWorker {worker : Nat} {old : Phase} (held : pipeline.workers[worker]? = some old)
    (phase : Phase) :
    ({ pipeline with workers := pipeline.workers.set worker phase } : Pipeline).bulk +
      old.weight = pipeline.bulk + phase.weight := by
  have total := addUp_set Phase.weight pipeline.workers worker old phase held
  simp only [bulk, unjoined, List.length_set] at total ⊢
  omega

theorem bulk_setProgress {closer : Nat} {old : Progress}
    (held : pipeline.progress? closer = some old) (progress : Progress) :
    (pipeline.setProgress closer progress).bulk + old.weight =
      pipeline.bulk + progress.weight := by
  unfold progress? at held
  obtain ⟨call, found, rfl⟩ := Option.map_eq_some_iff.1 held
  have total := addUp_modify (fun call : Closer => call.progress.weight) pipeline.closers
    closer call (fun call => { call with progress }) found
  have same : (pipeline.setProgress closer progress).unjoined = pipeline.unjoined := rfl
  rw [bulk, bulk, same]
  simp only [setProgress] at total ⊢
  omega

theorem bulk_takeOver {closer : Nat} (due : pipeline.progress? closer = some .summoning)
    (kept : pipeline.custody = .kept) :
    ({ pipeline.setProgress closer (.joining (List.range pipeline.workers.length)) with
      custody := .taken closer } : Pipeline).bulk + 3 = pipeline.bulk := by
  -- What the calls to come would have to wait for, this one waits for now.
  let joining := pipeline.setProgress closer (.joining (List.range pipeline.workers.length))
  have total : joining.bulk + 12 = pipeline.bulk + (3 * pipeline.workers.length + 9) := by
    have whole := bulk_setProgress due (.joining (List.range pipeline.workers.length))
    simpa only [Progress.weight, List.length_range] using whole
  have before : joining.unjoined = pipeline.workers.length := if_pos kept
  have after : ({ joining with custody := .taken closer } : Pipeline).unjoined = 0 := rfl
  show ({ joining with custody := .taken closer } : Pipeline).bulk + 3 = pipeline.bulk
  rw [bulk, before] at total
  rw [bulk, after]
  dsimp only
  omega

theorem stirred_iff : pipeline.stirred = true ↔ ∃ worker : Nat,
    pipeline.workers[worker]? = some .listening ∧ pipeline.finds worker = true := by
  unfold stirred
  constructor
  · intro stirs
    split at stirs
    · rename_i worker behind lined
      simp only [Bool.and_eq_true, beq_iff_eq] at stirs
      exact ⟨worker, stirs⟩
    · cases stirs
  · rintro ⟨worker, listening, finds⟩
    have first : pipeline.line.head? = some (.worker worker) := by
      simp only [Pipeline.finds, Bool.and_eq_true, beq_iff_eq] at finds
      exact finds.1
    obtain ⟨behind, lined⟩ := List.head?_eq_some_iff.1 first
    simp only [lined, listening, finds, beq_self_eq_true, Bool.and_self]

theorem finds_unique {worker other : Nat} (one : pipeline.finds worker = true)
    (another : pipeline.finds other = true) : worker = other := by
  simp only [Pipeline.finds, Bool.and_eq_true, beq_iff_eq] at one another
  have same := one.1.symm.trans another.1
  simpa using same

/-- A worker that is suspended where it finds nothing leaves the head of the line as it was. -/
theorem stirred_pause {worker : Nat} (nothing : pipeline.finds worker = false)
    (stirs : ({ pipeline with workers := pipeline.workers.set worker .listening } :
      Pipeline).stirred = true) : pipeline.stirred = true := by
  rcases stirred_iff.1 stirs with ⟨head, listening, finds⟩
  have found : pipeline.finds head = true := finds
  have apart : worker ≠ head := by
    rintro rfl
    rw [nothing] at found
    cases found
  rw [List.getElem?_set_ne apart] at listening
  exact stirred_iff.2 ⟨head, listening, found⟩

/-- A worker that wakes for something was the one at the head of the line. -/
theorem stirred_look {worker : Nat} (listening : pipeline.workers[worker]? = some .listening)
    (finds : pipeline.finds worker = true) :
    pipeline.stirred = true ∧
      ({ pipeline with workers := pipeline.workers.set worker .poised } :
        Pipeline).stirred = false := by
  refine ⟨stirred_iff.2 ⟨worker, listening, finds⟩, Bool.eq_false_iff.2 ?_⟩
  intro stirs
  rcases stirred_iff.1 stirs with ⟨head, sleeps, found⟩
  obtain rfl : worker = head := finds_unique finds found
  have inside := (List.getElem?_eq_some_iff.1 listening).1
  rw [List.getElem?_set_self inside] at sleeps
  cases sleeps

theorem weight_inner (inner : move.inner = true) (moved : Moved pipeline move next events) :
    next.weight < pipeline.weight := by
  cases moved with
  | turnAway | passOver | bring | close | abandon | wake => cases inner
  | grant waits | deliver waits | refuse waits =>
    apply weight_lt_of_bulk
    simp only [bulk, unjoined, waits, List.length_cons, List.length_append, List.length_nil]
    omega
  | look ready =>
    have total := bulk_setWorker ready .cleared
    exact weight_lt_of_bulk (by simp only [Phase.weight] at total; omega)
  | lookAgain listening going finds =>
    have total := bulk_setWorker listening .poised
    rcases stirred_look listening finds with ⟨before, after⟩
    simp only [weight, before, after, Phase.weight, if_true, Bool.false_eq_true,
      if_false] at total ⊢
    omega
  | listen cleared =>
    have total := bulk_setWorker cleared .poised
    apply weight_lt_of_bulk
    simp only [Phase.weight, bulk, unjoined] at total ⊢
    omega
  | pause poised nothing =>
    have total := bulk_setWorker poised .listening
    have still := stirred_pause nothing
    simp only [weight, Phase.weight] at total ⊢
    split
    · rename_i stirs
      rw [if_pos (still stirs)]
      omega
    · omega
  | @take worker entry behind later head queued poised =>
    have total := bulk_setWorker poised (.applying entry)
    apply weight_lt_of_bulk
    simp only [Phase.weight, bulk, unjoined, queued, List.length_cons] at total ⊢
    omega
  | leaveReady held | leaveListening held | leavePoised held =>
    have total := bulk_setWorker held .finished
    apply weight_lt_of_bulk
    simp only [Phase.weight, bulk, unjoined] at total ⊢
    omega
  | finish outcome applying =>
    have total := bulk_setWorker applying (if outcome = .panicked then Phase.crashed else .ready)
    apply weight_lt_of_bulk
    split at total <;> rename_i ended <;>
      simp only [ended, Phase.weight, if_true, if_false] at total ⊢ <;> omega
  | signal due =>
    have total := bulk_setProgress due .summoning
    apply weight_lt_of_bulk
    simp only [Progress.weight, bulk, unjoined] at total ⊢
    omega
  | takeOver due kept =>
    have total := bulk_takeOver due kept
    exact weight_lt_of_bulk (by omega)
  | comeLate due late =>
    have total := bulk_setProgress due (.joining [])
    exact weight_lt_of_bulk (by simp only [Progress.weight, List.length_nil] at total; omega)
  | @join closer worker rest crashed following ended =>
    have total := bulk_setProgress following (.joining rest)
    exact weight_lt_of_bulk (by simp only [Progress.weight, List.length_cons] at total; omega)
  | queueUp all =>
    have total := bulk_setProgress all .inLine
    apply weight_lt_of_bulk
    simp only [Progress.weight, List.length_nil, bulk, unjoined] at total ⊢
    omega
  | @discard closer kind behind head called =>
    have waited : pipeline.progress? closer = some .inLine := by rw [progress?, called]; rfl
    have total := bulk_setProgress waited .returned
    apply weight_lt_of_bulk
    simp only [Progress.weight, bulk, unjoined, setProgress, List.length_nil] at total ⊢
    omega

theorem length_inner {moves : List Move} (inner : ∀ move ∈ moves, move.inner = true)
    (ran : run? moves pipeline = some (next, events)) :
    moves.length + next.weight ≤ pipeline.weight := by
  induction moves generalizing pipeline events with
  | nil =>
    cases ran
    exact Nat.le_of_eq (Nat.zero_add _)
  | cons move moves induction =>
    rcases run_cons ran with ⟨between, before, after, moved, later, rfl⟩
    have first := weight_inner (inner move List.mem_cons_self) (moved_of_move moved)
    have rest := induction (fun other member => inner other (List.mem_cons_of_mem move member)) later
    rw [List.length_cons]
    omega

theorem own_of_mem (listed : move ∈ pipeline.ownMoves) : move.own = true := by
  unfold ownMoves headMoves at listed
  split at listed <;> cases move <;> simp at listed <;> rfl

theorem weight_ownMove (moved : pipeline.ownMove? = some (next, events)) :
    next.weight < pipeline.weight := by
  unfold ownMove? at moved
  obtain ⟨move, own, step⟩ := List.exists_of_findSome?_eq_some moved
  exact weight_inner (Move.inner_of_own (own_of_mem own)) (moved_of_move step)

theorem settleWithin_quiet (fuel : Nat) (pipeline : Pipeline)
    (enough : pipeline.weight ≤ fuel) : (pipeline.settleWithin fuel).1.ownMove? = none := by
  induction fuel generalizing pipeline with
  | zero =>
    unfold settleWithin
    cases moved : pipeline.ownMove? with
    | none => rfl
    | some step =>
      have less : step.1.weight < pipeline.weight := weight_ownMove moved
      omega
  | succ fuel ih =>
    unfold settleWithin
    cases moved : pipeline.ownMove? with
    | none => exact moved
    | some step =>
      have less : step.1.weight < pipeline.weight := weight_ownMove moved
      exact ih step.1 (by omega)

theorem settle_quiet (pipeline : Pipeline) : pipeline.settle.1.ownMove? = none :=
  settleWithin_quiet pipeline.weight pipeline (Nat.le_refl _)

theorem weight_settleWithin (fuel : Nat) (pipeline : Pipeline) :
    (pipeline.settleWithin fuel).1.weight ≤ pipeline.weight := by
  induction fuel generalizing pipeline with
  | zero => exact Nat.le_refl _
  | succ fuel ih =>
    unfold settleWithin
    cases moved : pipeline.ownMove? with
    | none => exact Nat.le_refl _
    | some step =>
      have less : step.1.weight < pipeline.weight := weight_ownMove moved
      have rest := ih step.1
      simp only
      omega

theorem mem_inProgress {pipeline : Pipeline} {worker : Nat} {entry : Entry}
    (member : (worker, entry) ∈ pipeline.inProgress) :
    pipeline.workers[worker]? = some (.applying entry) := by
  unfold inProgress at member
  obtain ⟨⟨phase, index⟩, listed, found⟩ := List.mem_filterMap.1 member
  obtain ⟨held, applied, same⟩ := Option.map_eq_some_iff.1 found
  simp only [Prod.mk.injEq] at same
  obtain ⟨rfl, rfl⟩ := same
  have position := List.mem_zipIdx_iff_getElem?.1 listed
  cases phase with
  | applying entry =>
    simp only [Phase.entry?, Option.some.injEq] at applied
    subst applied
    exact position
  | _ => simp [Phase.entry?] at applied

/-- Choosing one by one ends with what was there before or with one of the choices. -/
theorem mem_of_chosen {α : Type} {choose : Option α → α → Option α}
    (either : ∀ best next, choose best next = best ∨ choose best next = some next)
    (calls : List α) (best : Option α) :
    calls.foldl choose best = best ∨ ∃ call ∈ calls, calls.foldl choose best = some call := by
  induction calls generalizing best with
  | nil => exact .inl rfl
  | cons call later ih =>
    rw [List.foldl_cons]
    rcases ih (choose best call) with kept | ⟨other, member, chosen⟩
    · rcases either best call with same | new
      · exact .inl (kept.trans same)
      · exact .inr ⟨call, List.mem_cons_self, kept.trans new⟩
    · exact .inr ⟨other, List.mem_cons_of_mem _ member, chosen⟩

theorem oldest_either (best : Option (Nat × Entry)) (next : Nat × Entry) :
    older best next = best ∨ older best next = some next := by
  unfold older
  split
  · exact .inr rfl
  · split
    · exact .inr rfl
    · exact .inl rfl

theorem mem_of_oldest? {pipeline : Pipeline} {chosen : Nat × Entry}
    (oldest : pipeline.oldest? = some chosen) : chosen ∈ pipeline.inProgress := by
  rcases mem_of_chosen oldest_either pipeline.inProgress none with nobody | ⟨call, member, first⟩
  · exact absurd (oldest.symm.trans nobody) (by simp)
  · have same := oldest.symm.trans first
    rw [Option.some.injEq] at same
    exact same ▸ member

theorem runWithin_quiet {σ : Type} (apply : Request → σ → Outcome × σ) (fuel : Nat)
    (pipeline : Pipeline) (state : σ) (enough : pipeline.weight < fuel) :
    (runWithin apply fuel pipeline state).1.ownMove? = none ∧
      (runWithin apply fuel pipeline state).1.oldest? = none := by
  induction fuel generalizing pipeline state with
  | zero => omega
  | succ fuel ih =>
    have settled := weight_settleWithin pipeline.weight pipeline
    have quiet := settle_quiet pipeline
    unfold runWithin
    cases oldest : pipeline.settle.1.oldest? with
    | none =>
      simp only [oldest]
      exact ⟨quiet, trivial⟩
    | some call =>
      obtain ⟨worker, entry⟩ := call
      have position := mem_inProgress (mem_of_oldest? oldest)
      cases ended : pipeline.settle.1.finish? worker (apply entry.request state).1 with
      | none => simp [finish?, position] at ended
      | some step =>
        have moved : pipeline.settle.1.move? (.finish worker (apply entry.request state).1) =
            some step := ended
        have less : step.1.weight < pipeline.settle.1.weight :=
          weight_inner rfl (moved_of_move moved)
        simp only [oldest, ended]
        exact ih step.1 (apply entry.request state).2 (by simp only [settle] at less; omega)

theorem run_quiet {σ : Type} (apply : Request → σ → Outcome × σ) (pipeline : Pipeline)
    (state : σ) :
    (run apply pipeline state).1.ownMove? = none ∧
      (run apply pipeline state).1.oldest? = none :=
  runWithin_quiet apply (pipeline.weight + 1) pipeline state (Nat.lt_succ_self _)

end Pipeline

end ShortLinks.Deletion
