import ShortLinks.Proofs.PipelineWeight
import Mathlib.Data.List.Count
import Mathlib.Data.List.Nodup
import Mathlib.Data.List.Perm.Basic

/-!
# Where every request is

A request that was asked for has been accepted, has been refused, holds a permit, or waits for
one. What was accepted has been taken out of the queue, by a worker or by a closing call, or is
still queued, in this order; and what a worker took is either being applied or has ended. Every
move keeps this account, so no request is ever lost or doubled.
-/

namespace ShortLinks.Deletion

set_option autoImplicit false

namespace Event

def asked? : Event → Option Entry
  | asked entry => some entry
  | _ => none

def accepted? : Event → Option Entry
  | accepted entry => some entry
  | _ => none

def refused? : Event → Option Entry
  | refused entry => some entry
  | _ => none

def begun? : Event → Option Entry
  | began _ entry => some entry
  | _ => none

def ended? : Event → Option Entry
  | ended _ entry _ => some entry
  | _ => none

def discards : Event → List Entry
  | discarded _ entries => entries
  | _ => []

def removes : Event → List Entry
  | began _ entry => [entry]
  | discarded _ entries => entries
  | _ => []

end Event

def asked (events : List Event) : List Entry := events.filterMap Event.asked?

def accepted (events : List Event) : List Entry := events.filterMap Event.accepted?

def refused (events : List Event) : List Entry := events.filterMap Event.refused?

def begun (events : List Event) : List Entry := events.filterMap Event.begun?

def ended (events : List Event) : List Entry := events.filterMap Event.ended?

def discarded (events : List Event) : List Entry := events.flatMap Event.discards

def takenOut (events : List Event) : List Entry := events.flatMap Event.removes

theorem asked_append (past events : List Event) :
    asked (past ++ events) = asked past ++ asked events := List.filterMap_append

theorem accepted_append (past events : List Event) :
    accepted (past ++ events) = accepted past ++ accepted events := List.filterMap_append

theorem begun_append (past events : List Event) :
    begun (past ++ events) = begun past ++ begun events := List.filterMap_append

theorem discarded_append (past events : List Event) :
    discarded (past ++ events) = discarded past ++ discarded events := List.flatMap_append

theorem takenOut_append (past events : List Event) :
    takenOut (past ++ events) = takenOut past ++ takenOut events := List.flatMap_append

theorem begun_sublist_takenOut (events : List Event) :
    (begun events).Sublist (takenOut events) := by
  induction events with
  | nil => exact List.Sublist.refl []
  | cons event events induction =>
    cases event with
    | began worker entry => exact induction.cons_cons entry
    | discarded closer entries => exact induction.trans (List.sublist_append_right entries _)
    | _ => exact induction

theorem takenOut_perm (events : List Event) :
    (takenOut events).Perm (begun events ++ discarded events) := by
  induction events with
  | nil => exact List.Perm.refl []
  | cons event events induction =>
    cases event with
    | began worker entry => exact induction.cons entry
    | discarded closer entries =>
      have moved : (entries ++ takenOut events).Perm
          (entries ++ (begun events ++ discarded events)) := induction.append_left entries
      refine moved.trans ?_
      show (entries ++ (begun events ++ discarded events)).Perm
        (begun events ++ (entries ++ discarded events))
      rw [← List.append_assoc, ← List.append_assoc]
      exact List.perm_append_comm.append_right (discarded events)
    | _ => exact induction

/-- The entries are listed that an event of one kind was about. -/
theorem mem_entries {read : Event → Option Entry} {make : Entry → Event}
    (reads : ∀ event entry, read event = some entry ↔ event = make entry)
    {events : List Event} {entry : Entry} :
    entry ∈ events.filterMap read ↔ make entry ∈ events := by
  simp only [List.mem_filterMap, reads, exists_eq_right]

theorem mem_asked {events : List Event} {entry : Entry} :
    entry ∈ asked events ↔ .asked entry ∈ events :=
  mem_entries fun event entry => by cases event <;> simp [Event.asked?]

theorem mem_accepted {events : List Event} {entry : Entry} :
    entry ∈ accepted events ↔ .accepted entry ∈ events :=
  mem_entries fun event entry => by cases event <;> simp [Event.accepted?]

theorem mem_refused {events : List Event} {entry : Entry} :
    entry ∈ refused events ↔ .refused entry ∈ events :=
  mem_entries fun event entry => by cases event <;> simp [Event.refused?]

theorem mem_ended {events : List Event} {entry : Entry} :
    entry ∈ ended events ↔ ∃ worker outcome, .ended worker entry outcome ∈ events := by
  unfold ended
  rw [List.mem_filterMap]
  constructor
  · rintro ⟨event, held, same⟩
    cases event with
    | ended worker other outcome =>
      obtain rfl := Option.some.inj same
      exact ⟨worker, outcome, held⟩
    | _ => cases same
  · rintro ⟨worker, outcome, held⟩
    exact ⟨_, held, rfl⟩

theorem mem_discarded {events : List Event} {entry : Entry} :
    entry ∈ discarded events ↔
      ∃ closer entries, .discarded closer entries ∈ events ∧ entry ∈ entries := by
  unfold discarded
  rw [List.mem_flatMap]
  constructor
  · rintro ⟨event, held, dropped⟩
    cases event with
    | discarded closer entries => exact ⟨closer, entries, held, dropped⟩
    | _ => cases dropped
  · rintro ⟨closer, entries, held, dropped⟩
    exact ⟨_, held, dropped⟩

/-- A request without codes never enters the queue. -/
def Entry.filled (entry : Entry) : Bool := !entry.request.codes.isEmpty

namespace Pipeline

/-- The requests that workers are applying. -/
def applied (pipeline : Pipeline) : List Entry :=
  pipeline.workers.flatMap fun phase => phase.entry?.toList

structure Account (pipeline : Pipeline) (events : List Event) : Prop where
  tickets : (asked events).map Entry.ticket = List.range pipeline.issued
  answers : (asked events).Perm
    (accepted events ++ refused events ++ (pipeline.granted ++ pipeline.waiting))
  order : (accepted events).filter Entry.filled = takenOut events ++ pipeline.queue
  calls : (begun events).Perm (ended events ++ pipeline.applied)
  filled : ∀ entry ∈ pipeline.granted ++ pipeline.waiting, entry.filled = true
  unsealed : pipeline.sealed = false → discarded events = []

theorem account_start (settings : DeletionSettings) : Account (start settings) [] := by
  constructor
  · rfl
  · rfl
  · rfl
  · simp [begun, ended, applied, start, Phase.entry?]
  · simp [start]
  · simp [discarded]

variable {pipeline next : Pipeline} {past events : List Event} {move : Move}

theorem tickets_kept (account : Account pipeline past) (moved : Moved pipeline move next events) :
    (asked (past ++ events)).map Entry.ticket = List.range next.issued := by
  have before := account.tickets
  unfold asked at before ⊢
  cases moved with
  | turnAway => simp [before, List.filterMap_cons, Event.asked?, List.range_succ]
  | passOver => simp [before, List.filterMap_cons, Event.asked?, List.range_succ]
  | bring => simp [before, Event.asked?, List.range_succ]
  | _ => simpa [List.filterMap_cons, Event.asked?, setProgress] using before

theorem answers_kept (account : Account pipeline past) (moved : Moved pipeline move next events) :
    (asked (past ++ events)).Perm
      (accepted (past ++ events) ++ refused (past ++ events) ++ (next.granted ++ next.waiting)) := by
  have before := account.answers
  rw [List.perm_iff_count] at before ⊢
  intro entry
  have balance := before entry
  unfold asked accepted refused at balance ⊢
  simp only [List.filterMap_append, List.count_append] at balance ⊢
  cases moved with
  | turnAway | passOver | bring =>
    simp only [List.filterMap_cons, List.filterMap_nil, Event.asked?, Event.accepted?,
      Event.refused?, List.count_append, List.count_nil]
    omega
  | grant holds | deliver holds | refuse holds =>
    simp only [List.filterMap_cons, List.filterMap_nil, Event.asked?, Event.accepted?,
      Event.refused?, List.count_append, List.count_cons, List.count_nil, holds] at balance ⊢
    omega
  | _ => exact balance

theorem order_kept (account : Account pipeline past) (moved : Moved pipeline move next events) :
    (accepted (past ++ events)).filter Entry.filled =
      takenOut (past ++ events) ++ next.queue := by
  have before := account.order
  unfold accepted takenOut at before ⊢
  simp only [List.filterMap_append, List.flatMap_append, List.filter_append, before]
  cases moved with
  | passOver request taking empty =>
    simp [List.filterMap_cons, Event.accepted?, Event.removes, Entry.filled, empty]
  | @deliver entry later holds =>
    have filled := account.filled entry (by simp [holds])
    simp [Event.accepted?, Event.removes, filled]
  | take head queued =>
    simp [List.filterMap_cons, Event.accepted?, Event.removes, queued]
  | _ => simp [List.filterMap_cons, Event.accepted?, Event.removes, setProgress]

theorem count_flatMap (values : List Phase) (entry : Entry) :
    (values.flatMap fun phase => phase.entry?.toList).count entry =
      addUp (values.map fun phase => phase.entry?.toList.count entry) := by
  induction values with
  | nil => rfl
  | cons phase values ih =>
    rw [List.flatMap_cons, List.count_append, ih, List.map_cons, addUp_cons]

theorem applied_set {worker : Nat} {old : Phase} (held : pipeline.workers[worker]? = some old)
    (phase : Phase) (entry : Entry) :
    ((pipeline.workers.set worker phase).flatMap fun phase => phase.entry?.toList).count entry +
        old.entry?.toList.count entry =
      pipeline.applied.count entry + phase.entry?.toList.count entry := by
  rw [applied, count_flatMap, count_flatMap]
  exact addUp_set (fun phase : Phase => phase.entry?.toList.count entry) pipeline.workers worker
    old phase held

theorem applied_moved (moved : Moved pipeline move next events) (entry : Entry) :
    next.applied.count entry + (ended events).count entry =
      pipeline.applied.count entry + (begun events).count entry := by
  cases moved with
  | look held => exact applied_set held .cleared entry
  | lookAgain held | listen held | wake held => exact applied_set held .poised entry
  | pause held => exact applied_set held .listening entry
  | take head queued held => exact applied_set held (.applying _) entry
  | leaveReady held | leaveListening held | leavePoised held =>
    exact applied_set held .finished entry
  | finish outcome held =>
    have same := applied_set held (if outcome = .panicked then Phase.crashed else .ready) entry
    have none : Phase.entry? (if outcome = .panicked then .crashed else .ready) = none := by
      split <;> rfl
    rw [none] at same
    exact same
  | _ => rfl

theorem calls_kept (account : Account pipeline past) (moved : Moved pipeline move next events) :
    (begun (past ++ events)).Perm (ended (past ++ events) ++ next.applied) := by
  have before := account.calls
  rw [List.perm_iff_count] at before ⊢
  intro entry
  have balance := before entry
  have change := applied_moved moved entry
  simp only [begun, ended, List.filterMap_append, List.count_append] at balance change ⊢
  omega

theorem filled_kept (account : Account pipeline past) (moved : Moved pipeline move next events) :
    ∀ entry ∈ next.granted ++ next.waiting, entry.filled = true := by
  have before := account.filled
  cases moved with
  | bring request taking filled =>
    intro entry held
    rw [← List.append_assoc] at held
    rcases List.mem_append.1 held with earlier | new
    · exact before entry earlier
    · obtain rfl := List.mem_singleton.1 new
      simpa [Entry.filled] using filled
  | grant waits =>
    rw [waits] at before
    simpa using before
  | deliver holds =>
    rw [holds] at before
    exact fun entry held => before entry (List.mem_cons_of_mem _ held)
  | refuse waits =>
    intro entry held
    apply before entry
    rw [waits]
    exact (List.Sublist.append_left (List.sublist_cons_self _ _) _).subset held
  | _ => exact before

theorem account_moved (account : Account pipeline past) (moved : Moved pipeline move next events) :
    Account next (past ++ events) := by
  refine ⟨tickets_kept account moved, answers_kept account moved, order_kept account moved,
    calls_kept account moved, filled_kept account moved, ?_⟩
  have before := account.unsealed
  unfold discarded at before ⊢
  cases moved with
  | discard => simp
  | _ => simpa [Event.discards, setProgress] using before

theorem account_of_run {settings : DeletionSettings} {moves : List Move}
    (ran : run? moves (start settings) = some (next, events)) : Account next events :=
  run_keeps_always Account account_moved [] (account_start settings) ran

namespace Account

variable {entry : Entry}

theorem ticket_lt (account : Account pipeline events) (brought : entry ∈ asked events) :
    entry.ticket < pipeline.issued := by
  have listed := List.mem_map_of_mem (f := Entry.ticket) brought
  rw [account.tickets] at listed
  exact List.mem_range.1 listed

theorem answers_nodup (account : Account pipeline events) :
    (accepted events ++ refused events ++ (pipeline.granted ++ pipeline.waiting)).Nodup := by
  apply account.answers.nodup_iff.1
  apply List.Nodup.of_map Entry.ticket
  rw [account.tickets]
  exact List.nodup_range

theorem accepted_nodup (account : Account pipeline events) : (accepted events).Nodup := by
  have answers := account.answers_nodup
  rw [List.append_assoc] at answers
  exact (List.nodup_append.1 answers).1

theorem asked_cases (account : Account pipeline events) (brought : entry ∈ asked events) :
    entry ∈ accepted events ∨ entry ∈ refused events ∨
      entry ∈ pipeline.granted ++ pipeline.waiting := by
  have listed := account.answers.mem_iff.1 brought
  rwa [List.mem_append, List.mem_append, or_assoc] at listed

theorem asked_of_refused (account : Account pipeline events) (denied : entry ∈ refused events) :
    entry ∈ asked events :=
  account.answers.mem_iff.2 (by simp [denied])

theorem accepted_not_pending (account : Account pipeline events)
    (taken : entry ∈ accepted events) : entry ∉ pipeline.granted ++ pipeline.waiting := by
  intro waits
  exact (List.nodup_append.1 account.answers_nodup).2.2 entry (by simp [taken]) entry waits rfl

theorem mem_takenOut :
    entry ∈ takenOut events ↔ entry ∈ begun events ∨ entry ∈ discarded events := by
  rw [(takenOut_perm events).mem_iff, List.mem_append]

theorem accepted_cases (account : Account pipeline events) (taken : entry ∈ accepted events)
    (filled : entry.filled = true) :
    entry ∈ begun events ∨ entry ∈ discarded events ∨ entry ∈ pipeline.queue := by
  have kept : entry ∈ (accepted events).filter Entry.filled := List.mem_filter.2 ⟨taken, filled⟩
  rwa [account.order, List.mem_append, mem_takenOut, or_assoc] at kept

theorem accepted_of_begun (account : Account pipeline events) (taken : entry ∈ begun events) :
    entry ∈ accepted events ∧ entry.filled = true := by
  apply List.mem_filter.1
  rw [account.order, List.mem_append, mem_takenOut]
  exact .inl (.inl taken)

theorem accepted_of_queued (account : Account pipeline events)
    (queued : entry ∈ pipeline.queue) : entry ∈ accepted events ∧ entry.filled = true := by
  apply List.mem_filter.1
  rw [account.order]
  exact List.mem_append_right _ queued

theorem begun_cases (account : Account pipeline events) :
    entry ∈ begun events ↔ entry ∈ ended events ∨ entry ∈ pipeline.applied := by
  rw [account.calls.mem_iff, List.mem_append]

theorem applied_not_ended (account : Account pipeline events)
    (applies : entry ∈ pipeline.applied) : entry ∉ ended events := by
  intro done
  have once : (takenOut events ++ pipeline.queue).Nodup := by
    rw [← account.order]
    exact account.accepted_nodup.filter _
  have begun := (List.nodup_append.1 once).1.sublist (begun_sublist_takenOut events)
  have calls := account.calls.nodup_iff.1 begun
  exact (List.nodup_append.1 calls).2.2 entry done entry applies rfl

end Account

end Pipeline

end ShortLinks.Deletion
