import ShortLinks.Proofs.DrainOutcome
import ShortLinks.Proofs.PipelineQuiet

/-!
# One request at a time

A pipeline to which one request is brought, and none before that is left, has applied exactly this
one when nobody can go on, or when a drain has returned, whatever the order of the moves was. That
needs calls that do not panic.
-/

namespace ShortLinks.Deletion

set_option autoImplicit false

/-- The move brings a request, or goes on without a panic. -/
def Move.Untroubled (move : Move) : Prop := move.Calm ∨ ∃ request, move = .accept request

theorem Move.Calm.spares {move : Move} (calm : move.Calm) :
    move.OnlyDrains ∧ move ≠ .finish 0 .panicked := by
  refine ⟨⟨?_, ?_⟩, ?_⟩
  · rintro rfl
    cases calm
  · rintro rfl
    cases calm
  · rintro rfl
    exact calm rfl

theorem Move.Untroubled.spares {move : Move} (untroubled : move.Untroubled) :
    move.OnlyDrains ∧ move ≠ .finish 0 .panicked := by
  rcases untroubled with calm | ⟨request, rfl⟩
  · exact calm.spares
  · simp [OnlyDrains]

namespace Pipeline

/-- The pipeline has come from its start by requests that were brought and by going on itself.
No call has panicked, and nobody has closed it. -/
def Untroubled (pipeline : Pipeline) (past : List Event) : Prop :=
  ∃ settings moves, run? moves (start settings) = some (pipeline, past) ∧
    ∀ move ∈ moves, Move.Untroubled move

variable {pipeline last : Pipeline} {past events : List Event} {request : Request}

theorem untroubled_start (settings : DeletionSettings) : (start settings).Untroubled [] :=
  ⟨settings, [], rfl, by simp⟩

theorem idle_start (settings : DeletionSettings) : (start settings).Idle := by
  refine ⟨rfl, rfl, rfl, ?_⟩
  simp [applied, start, Phase.entry?]

theorem Untroubled.account (untroubled : pipeline.Untroubled past) : Account pipeline past := by
  rcases untroubled with ⟨settings, moves, ran, _⟩
  exact account_of_run ran

theorem Untroubled.coherent (untroubled : pipeline.Untroubled past) : pipeline.Coherent := by
  rcases untroubled with ⟨settings, moves, ran, _⟩
  exact coherent_of_run ran

theorem Untroubled.serving (untroubled : pipeline.Untroubled past) :
    pipeline.Serving ∧ refused past = [] := by
  rcases untroubled with ⟨settings, moves, ran, calm⟩
  exact serving_run (serving_start settings) calm ran

theorem Untroubled.kept (untroubled : pipeline.Untroubled past) : discarded past = [] :=
  untroubled.account.unsealed untroubled.serving.1.unsealed

theorem Untroubled.onward (untroubled : pipeline.Untroubled past) {moves : List Move}
    (ran : run? moves pipeline = some (last, events))
    (calm : ∀ move ∈ moves, Move.Untroubled move) : last.Untroubled (past ++ events) := by
  rcases untroubled with ⟨settings, before, reached, quiet⟩
  refine ⟨settings, before ++ moves, run_meets reached ran, ?_⟩
  intro move member
  exact (List.mem_append.1 member).elim (quiet move) (calm move)

theorem Untroubled.brought (untroubled : pipeline.Untroubled past) (request : Request) :
    (pipeline.accept request).1.Untroubled (past ++ (pipeline.accept request).2) := by
  have ran : run? [.accept request] pipeline = some (pipeline.accept request) := by
    simp only [run?, move?, List.append_nil]
  apply untroubled.onward ran
  intro move member
  exact .inr ⟨request, List.mem_singleton.1 member⟩

theorem asked_accept (pipeline : Pipeline) (request : Request) :
    asked (pipeline.accept request).2 = [⟨pipeline.issued, request⟩] := by
  unfold accept asked
  simp only
  split
  · rfl
  · split <;> rfl

theorem ended_accept (pipeline : Pipeline) (request : Request) :
    ended (pipeline.accept request).2 = [] := by
  unfold accept ended
  simp only
  split
  · rfl
  · split <;> rfl

theorem ended_none (account : Account pipeline past) (none : asked past = []) :
    ended past = [] := by
  have answers := account.answers
  rw [none, List.nil_perm, List.append_eq_nil_iff, List.append_eq_nil_iff] at answers
  have order := account.order
  rw [answers.1.1, List.filter_nil, eq_comm, List.append_eq_nil_iff] at order
  have begun := begun_sublist_takenOut past
  rw [order.1, List.sublist_nil] at begun
  have calls := account.calls
  rw [begun, List.nil_perm, List.append_eq_nil_iff] at calls
  exact calls.1

section Going

variable {σ : Type} {apply : Request → σ → Outcome × σ} {state final : σ}

theorem Works.asks_nothing (works : Works apply pipeline state events last final)
    (never : ∀ request state, (apply request state).1 ≠ .panicked) : asked events = [] := by
  rcases works.ran never with ⟨⟨moves, ran, calm⟩, _⟩
  exact (calm_run calm ran).1

theorem Works.untroubled (works : Works apply pipeline state events last final)
    (never : ∀ request state, (apply request state).1 ≠ .panicked)
    (untroubled : pipeline.Untroubled past) : last.Untroubled (past ++ events) := by
  rcases works.ran never with ⟨⟨moves, ran, calm⟩, _⟩
  exact untroubled.onward ran fun move member => .inl (calm move member)

theorem effect_append (first second : List Entry) (state : σ) :
    effect apply (first ++ second) state = effect apply second (effect apply first state) :=
  List.foldl_append

theorem run_still (apply : Request → σ → Outcome × σ) (pipeline : Pipeline) (state : σ) :
    (run apply pipeline state).1.Still := by
  rcases run_quiet apply pipeline state with ⟨quiet, nobody⟩
  exact still_of_quiet quiet nobody

/-- A request that was brought to an idle pipeline is accepted and applied before nobody can go
on. -/
theorem Untroubled.applies (untroubled : pipeline.Untroubled past) (idle : pipeline.Idle)
    (never : ∀ request state, (apply request state).1 ≠ .panicked)
    (works : Works apply (pipeline.accept request).1 state events last final)
    (still : last.Still) :
    .accepted ⟨pipeline.issued, request⟩ ∈ (pipeline.accept request).2 ++ events ∧
      final = effect apply ([⟨pipeline.issued, request⟩].filter Entry.filled) state ∧
      last.Idle ∧ last.Untroubled (past ++ ((pipeline.accept request).2 ++ events)) := by
  have onward : last.Untroubled (past ++ ((pipeline.accept request).2 ++ events)) := by
    rw [← List.append_assoc]
    exact works.untroubled never (untroubled.brought request)
  have rested : last.Idle := onward.serving.1.idle onward.coherent still
  have lone : asked ((pipeline.accept request).2 ++ events) = [⟨pipeline.issued, request⟩] := by
    rw [asked_append, asked_accept, works.asks_nothing never, List.append_nil]
  have unrefused : refused ((pipeline.accept request).2 ++ events) = [] := by
    have none := onward.serving.2
    unfold refused at none ⊢
    rw [List.filterMap_append, List.append_eq_nil_iff] at none
    exact none.2
  rcases lone_ended untroubled.account idle onward.account rested onward.kept lone (.inr unrefused)
    with ⟨accepted, ended⟩
  refine ⟨?_, ?_, rested, onward⟩
  · apply mem_accepted.1
    rw [accepted]
    exact List.mem_singleton_self _
  · rw [ended_append, ended_accept, List.nil_append] at ended
    rw [← ended]
    exact (works.ran never).2

theorem Untroubled.closing (untroubled : pipeline.Untroubled past) {moves : List Move}
    (calm : ∀ move ∈ moves, Move.Calm move)
    (ran : run? moves (pipeline.close .drain).1 = some (last, events)) :
    ∃ settings whole,
      run? whole (start settings) = some (last, past ++ ((pipeline.close .drain).2 ++ events)) ∧
        (∀ move ∈ whole, Move.OnlyDrains move ∧ move ≠ .finish 0 .panicked) ∧
        ∃ progress, last.closers = [⟨.drain, progress⟩] := by
  have kinds := (calm_run calm ran).2
  rw [close, untroubled.serving.1.uncalled] at kinds
  rcases untroubled with ⟨settings, before, reached, quiet⟩
  have onward : run? (.close .drain :: moves) pipeline =
      some (last, (pipeline.close .drain).2 ++ events) := by
    simp only [run?, move?, ran]
  refine ⟨settings, _, run_meets reached onward, ?_, ?_⟩
  · intro move member
    rcases List.mem_append.1 member with early | later
    · exact (quiet move early).spares
    · rcases List.mem_cons.1 later with rfl | late
      · simp [Move.OnlyDrains]
      · exact (calm move late).spares
  · rcases List.map_eq_singleton_iff.1 kinds with ⟨⟨kind, progress⟩, calls, rfl⟩
    exact ⟨progress, calls⟩

/-- When the drain has returned nothing is left to do. -/
theorem Untroubled.drained (untroubled : pipeline.Untroubled past)
    (never : ∀ request state, (apply request state).1 ≠ .panicked)
    (works : Works apply (pipeline.close .drain).1 state events last final)
    (returned : last.progress? pipeline.closers.length = some .returned) :
    Account last (past ++ ((pipeline.close .drain).2 ++ events)) ∧ last.Idle ∧
      discarded (past ++ ((pipeline.close .drain).2 ++ events)) = [] := by
  rw [untroubled.serving.1.uncalled] at returned
  rcases works.ran never with ⟨⟨moves, ran, calm⟩, _⟩
  rcases untroubled.closing calm ran with ⟨settings, whole, reached, spared, progress, calls⟩
  have lone : last.closers = [⟨.drain, .returned⟩] := by
    rw [progress?, calls] at returned
    have done : progress = .returned := Option.some.inj returned
    rw [calls, done]
  have first : 0 < max 1 settings.workers :=
    Nat.lt_of_lt_of_le Nat.zero_lt_one (Nat.le_max_left 1 settings.workers)
  refine ⟨account_of_run reached, ?_⟩
  apply drained_idle (fun move member => (spared move member).1) first _ reached lone
  intro panics
  exact (spared _ panics).2 rfl

/-- A drain that runs until nobody can go on returns. -/
theorem Untroubled.returns (untroubled : pipeline.Untroubled past)
    (never : ∀ request state, (apply request state).1 ≠ .panicked) (state : σ) :
    (run apply (pipeline.close .drain).1 state).1.progress? pipeline.closers.length =
      some .returned := by
  rcases (run_works (pipeline.close .drain).1 state).ran never with ⟨⟨moves, ran, calm⟩, _⟩
  rcases untroubled.closing calm ran with ⟨settings, whole, reached, _, progress, calls⟩
  have still := run_still apply (pipeline.close .drain).1 state
  have wound := woundUp_of_still (coherent_of_run reached) (by simp [calls]) still
  have done : progress = .returned := wound.returned ⟨.drain, progress⟩ (by simp [calls])
  rw [untroubled.serving.1.uncalled, progress?, calls, done]
  rfl

end Going

end Pipeline

end ShortLinks.Deletion
