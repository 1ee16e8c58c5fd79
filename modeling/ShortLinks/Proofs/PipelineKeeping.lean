import ShortLinks.Proofs.PipelineAccount
import Mathlib.Data.List.Pairwise

/-!
# One place for every request

A request that was accepted is queued, is being applied by one worker, has ended or was
discarded, and never two of these. Requests enter the queue and leave it in the order in which
their calls began, so workers begin them in this order, each at most once. Nothing is removed
from the queue behind the back of the notices: those of the closing calls count every request
that such a call took out.
-/

namespace ShortLinks.Deletion

set_option autoImplicit false

/-- Where a request is that was accepted. -/
inductive Place
  | queued
  | applying (worker : Nat)
  | ended
  | discarded
  deriving DecidableEq, Repr

/-- How many requests a notice reports as discarded. -/
def reported : Notice → Nat
  | .requestsDiscarded count => count
  | _ => 0

/-- How many requests the notices report as discarded. -/
def warned (events : List Event) : Nat := addUp ((events.flatMap Event.notices).map reported)

theorem addUp_append (first second : List Nat) :
    addUp (first ++ second) = addUp first + addUp second := by
  induction first with
  | nil => simp [addUp]
  | cons size first ih =>
    rw [List.cons_append, addUp_cons, addUp_cons, ih, Nat.add_assoc]

theorem warned_append (past events : List Event) :
    warned (past ++ events) = warned past + warned events := by
  rw [warned, List.flatMap_append, List.map_append, addUp_append]
  rfl

def Move.ofClosing : Move → Bool
  | close _ | signal _ | takeOver _ | join _ | queueUp _ | discard _ => true
  | _ => false

namespace Pipeline

/-- How many requests the closing calls take out of the queue in a run. -/
def removed : List Move → Pipeline → Nat
  | [], _ => 0
  | move :: moves, pipeline =>
      match pipeline.move? move with
      | none => 0
      | some (next, _) =>
          let taken := if move.ofClosing then pipeline.queue.length - next.queue.length else 0
          taken + removed moves next

def At (pipeline : Pipeline) (events : List Event) (entry : Entry) : Place → Prop
  | .queued => entry ∈ pipeline.queue
  | .applying worker => pipeline.workers[worker]? = some (.applying entry)
  | .ended => entry ∈ ended events
  | .discarded => entry ∈ discarded events

variable {pipeline next : Pipeline} {past events : List Event} {move : Move} {entry : Entry}

theorem warned_moved (moved : Moved pipeline move next events) :
    warned events =
      if move.ofClosing then pipeline.queue.length - next.queue.length else 0 := by
  cases moved with
  | finish outcome => cases outcome <;> rfl
  | close | signal | takeOver | comeLate | queueUp =>
    simp [Move.ofClosing, warned, addUp, Event.notices, setProgress]
  | join crashed =>
    cases crashed <;>
      simp [Move.ofClosing, warned, addUp, Event.notices, reported, setProgress]
  | @discard closer kind behind head called =>
    cases queued : pipeline.queue <;> cases kind <;>
      simp [Move.ofClosing, warned, addUp, Event.notices, reported]
  | _ => rfl

theorem warned_of_run {moves : List Move} (ran : run? moves pipeline = some (next, events)) :
    warned events = removed moves pipeline := by
  induction moves generalizing pipeline events with
  | nil =>
    cases ran
    rfl
  | cons move moves ih =>
    rcases run_cons ran with ⟨between, before, after, moved, later, rfl⟩
    have first := warned_moved (moved_of_move moved)
    simp only [removed, moved, warned_append, first, ih later]

/-- The requests that were accepted for the queue, and behind them those that are to come. -/
def lined (pipeline : Pipeline) (events : List Event) : List Entry :=
  (accepted events).filter Entry.filled ++ (pipeline.granted ++ pipeline.waiting)

theorem lined_moved (account : Account pipeline past) (moved : Moved pipeline move next events) :
    (next.lined (past ++ events)).Sublist (pipeline.lined past) ∨
      ∃ newest, next.lined (past ++ events) = pipeline.lined past ++ [newest] ∧
        asked events = [newest] := by
  unfold lined
  rw [accepted_append, List.filter_append]
  unfold accepted
  cases moved with
  | passOver request taking empty =>
    left
    simp [List.filterMap_cons, Event.accepted?, Entry.filled, empty]
  | bring request =>
    right
    exact ⟨⟨pipeline.issued, request⟩, by simp [Event.accepted?], rfl⟩
  | grant waits =>
    left
    simp [waits]
  | @deliver entry later holds =>
    have filled := account.filled entry (by simp [holds])
    left
    simp [Event.accepted?, filled, holds]
  | @refuse entry later waits =>
    left
    have fewer : (pipeline.granted ++ later).Sublist (pipeline.granted ++ entry :: later) :=
      (List.sublist_cons_self entry later).append_left _
    show ((past.filterMap Event.accepted?).filter Entry.filled ++ [] ++
      (pipeline.granted ++ later)).Sublist _
    rw [List.append_nil, waits]
    exact fewer.append_left _
  | _ =>
    left
    simp [List.filterMap_cons, Event.accepted?, setProgress]

theorem lined_in_order {settings : DeletionSettings} {moves : List Move}
    (ran : run? moves (start settings) = some (next, events)) :
    (next.lined events).Sublist (asked events) := by
  have kept := run_keeps_always
    (fun pipeline past => Account pipeline past ∧ (pipeline.lined past).Sublist (asked past))
    ?_ [] ⟨account_start settings, List.Sublist.refl []⟩ ran
  · exact kept.2
  · rintro pipeline next past events move ⟨account, order⟩ moved
    refine ⟨account_moved account moved, ?_⟩
    rw [asked_append]
    rcases lined_moved account moved with fewer | ⟨newest, behind, brought⟩
    · exact (fewer.trans order).trans (List.sublist_append_left _ _)
    · rw [behind, brought]
      exact List.Sublist.append_right order [newest]

theorem begun_in_order {settings : DeletionSettings} {moves : List Move}
    (ran : run? moves (start settings) = some (next, events)) :
    (begun events).Sublist (asked events) := by
  have lined := lined_in_order ran
  rw [Pipeline.lined, (account_of_run ran).order, List.append_assoc] at lined
  exact ((begun_sublist_takenOut events).trans (List.sublist_append_left _ _)).trans lined

/-- All places together hold the accepted requests, each as often as it was accepted. -/
theorem places_perm (account : Account pipeline events) :
    ((accepted events).filter Entry.filled).Perm
      (pipeline.queue ++ pipeline.applied ++ ended events ++ discarded events) := by
  rw [account.order, List.perm_iff_count]
  intro entry
  have calls := account.calls.count_eq entry
  have taken := (takenOut_perm events).count_eq entry
  simp only [List.count_append] at calls taken ⊢
  omega

theorem places_nodup (account : Account pipeline events) :
    (pipeline.queue ++ pipeline.applied ++ ended events ++ discarded events).Nodup :=
  (places_perm account).nodup_iff.1 (account.accepted_nodup.filter _)

theorem mem_applied : entry ∈ pipeline.applied ↔
    ∃ worker : Nat, pipeline.workers[worker]? = some (.applying entry) := by
  unfold applied
  rw [List.mem_flatMap]
  constructor
  · rintro ⟨phase, held, applies⟩
    cases phase with
    | applying other =>
      obtain rfl : entry = other := by simpa [Phase.entry?] using applies
      exact List.getElem?_of_mem held
    | _ => cases applies
  · rintro ⟨worker, held⟩
    exact ⟨_, List.mem_of_getElem? held, by simp [Phase.entry?]⟩

theorem applying_unique (account : Account pipeline events) {first second : Nat}
    (one : pipeline.workers[first]? = some (.applying entry))
    (other : pipeline.workers[second]? = some (.applying entry)) : first = second := by
  have nodup : pipeline.applied.Nodup := by
    have places := places_nodup account
    rw [List.append_assoc, List.append_assoc] at places
    exact (List.nodup_append.1 (List.nodup_append.1 places).2.1).1
  by_contra different
  have changed : _ + [entry].count entry = _ + [].count entry := applied_set one .ready entry
  have still : entry ∈ (pipeline.workers.set first .ready).flatMap fun phase =>
      phase.entry?.toList := by
    apply List.mem_flatMap.2
    refine ⟨.applying entry, ?_, by simp [Phase.entry?]⟩
    apply List.mem_of_getElem? (i := second)
    rw [List.getElem?_set_ne different, other]
  have once : pipeline.applied.count entry ≤ 1 := List.nodup_iff_count_le_one.1 nodup entry
  have counted := List.count_pos_iff.2 still
  simp only [List.count_nil, List.count_singleton_self] at changed
  omega

def shelf (pipeline : Pipeline) (events : List Event) : Place → List Entry
  | .queued => pipeline.queue
  | .applying _ => pipeline.applied
  | .ended => ended events
  | .discarded => discarded events

theorem mem_shelf {place : Place} (held : pipeline.At events entry place) :
    entry ∈ pipeline.shelf events place := by
  cases place with
  | applying worker => exact mem_applied.2 ⟨worker, held⟩
  | _ => exact held

theorem place_unique (account : Account pipeline events) {place other : Place}
    (here : pipeline.At events entry place) (there : pipeline.At events entry other) :
    place = other := by
  have once : (pipeline.queue ++ pipeline.applied ++ ended events ++
      discarded events).count entry ≤ 1 :=
    List.nodup_iff_count_le_one.1 (places_nodup account) entry
  have first := List.count_pos_iff.2 (mem_shelf here)
  have second := List.count_pos_iff.2 (mem_shelf there)
  simp only [List.count_append] at once
  -- Two places of different kinds would count the request twice.
  cases place with
  | applying worker =>
    cases other with
    | applying second => exact congrArg Place.applying (applying_unique account here there)
    | queued | ended | discarded =>
      simp only [shelf] at first second
      omega
  | queued | ended | discarded =>
    cases other <;> first
      | rfl
      | simp only [shelf] at first second
        omega

theorem place_of_accepted (account : Account pipeline events) (taken : .accepted entry ∈ events)
    (filled : entry.request.codes ≠ []) : ∃! place, pipeline.At events entry place := by
  have kept : entry ∈ (accepted events).filter Entry.filled :=
    List.mem_filter.2 ⟨mem_accepted.2 taken, by simpa [Entry.filled] using filled⟩
  have somewhere := (places_perm account).mem_iff.1 kept
  simp only [List.mem_append] at somewhere
  obtain ⟨place, held⟩ : ∃ place, pipeline.At events entry place := by
    rcases somewhere with ((queued | applies) | done) | dropped
    · exact ⟨.queued, queued⟩
    · rcases mem_applied.1 applies with ⟨worker, held⟩
      exact ⟨.applying worker, held⟩
    · exact ⟨.ended, done⟩
    · exact ⟨.discarded, dropped⟩
  exact ⟨place, held, fun other there => place_unique account there held⟩

theorem mem_begun : entry ∈ begun events ↔ ∃ worker, .began worker entry ∈ events := by
  unfold begun
  rw [List.mem_filterMap]
  constructor
  · rintro ⟨event, held, same⟩
    cases event with
    | began worker other =>
      obtain rfl := Option.some.inj same
      exact ⟨worker, held⟩
    | _ => cases same
  · rintro ⟨worker, held⟩
    exact ⟨_, held, rfl⟩

theorem refused_not_begun (account : Account pipeline events) (denied : entry ∈ refused events) :
    entry ∉ begun events := by
  intro taken
  have answers := account.answers_nodup
  rw [List.append_assoc] at answers
  exact (List.nodup_append.1 answers).2.2 entry (account.accepted_of_begun taken).1 entry
    (by simp [denied]) rfl

/-- What holds of the requests at each moment of a run. Each call that brings one has a number
of its own, so what a worker begins is what that call asked for. -/
structure Conserved (settings : DeletionSettings) (moves : List Move) (pipeline : Pipeline)
    (events : List Event) : Prop where
  placed : ∀ entry, .accepted entry ∈ events → entry.request.codes ≠ [] →
    ∃! place, pipeline.At events entry place
  single : (pipeline.queue ++ pipeline.applied ++ ended events ++ discarded events).Nodup
  numbered : (asked events).map Entry.ticket = List.range pipeline.issued
  ordered : (begun events).Sublist (asked events)
  once : ((begun events).map Entry.ticket).Nodup
  unbegun : ∀ worker entry, .refused entry ∈ events → .began worker entry ∉ events
  counted : warned events = removed moves (start settings)

/-- Whatever the parties do and in whatever order, no request is lost, doubled or overtaken, a
refused one is never begun, and the notices count what the closing calls took out of the
queue. -/
theorem run_conserves {settings : DeletionSettings} {moves : List Move}
    (ran : run? moves (start settings) = some (pipeline, events)) :
    Conserved settings moves pipeline events := by
  have account := account_of_run ran
  have ordered := begun_in_order ran
  refine ⟨?_, places_nodup account, account.tickets, ordered, ?_, ?_, warned_of_run ran⟩
  · intro entry taken filled
    exact place_of_accepted account taken filled
  · apply List.Nodup.sublist (ordered.map Entry.ticket)
    rw [account.tickets]
    exact List.nodup_range
  · intro worker entry denied taken
    exact refused_not_begun account (mem_refused.2 denied) (mem_begun.2 ⟨worker, taken⟩)

/-- One request panics, one fails, one is discarded by a drain that overtakes the stop, and one
never gets a permit. -/
def crowded : List Move :=
  brings ⟨"u1", [⟨"a"⟩]⟩ ++ takes 0 ++ brings ⟨"u2", [⟨"b"⟩]⟩ ++
    [.accept ⟨"u1", [⟨"c"⟩]⟩] ++ takes 1 ++ [.grant, .deliver, .accept ⟨"u1", [⟨"d"⟩]⟩] ++
    [.close .stop, .signal 0, .takeOver 0, .close .drain, .takeOver 1, .queueUp 1,
      .finish 0 .panicked, .finish 1 (.failed (.query "locked")), .leave 1, .discard 1, .refuse,
      .join 0, .join 0, .queueUp 0, .discard 0, .abandon]

theorem crowded_run_conserves :
    ∃ pipeline events, run? crowded (start ⟨2, 0⟩) = some (pipeline, events) ∧
      Conserved ⟨2, 0⟩ crowded pipeline events ∧
      (begun events).map Entry.ticket = [0, 1] ∧ (refused events).map Entry.ticket = [3] ∧
      (discarded events).map Entry.ticket = [2] ∧ warned events = 1 :=
  ⟨_, _, rfl, run_conserves rfl, rfl, rfl, rfl, rfl⟩

end Pipeline

end ShortLinks.Deletion
