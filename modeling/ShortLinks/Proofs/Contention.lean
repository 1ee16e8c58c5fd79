import ShortLinks.Proofs.Desk
import ShortLinks.Proofs.StoredKeys

/-!
# Calls that overlap

Many clients call one backend. A put to a database takes two statements where the first finds the
code taken, and anything may happen in between; every other call takes effect at once. The calls
can still be put into one order that the backend could have met them in, one after the other: a
put has its place where its last statement is, since by then its insert would fail just the same.
-/

namespace ShortLinks

set_option autoImplicit false

namespace Contention

/-- How far a call has come. It has its answer before it returns. -/
inductive Stage
  | begun
  | violated
  | answered (reply : Reply)
  | returned (reply : Reply)

namespace Stage

def reply? : Stage → Option Reply
  | answered reply | returned reply => some reply
  | begun | violated => none

def returned? : Stage → Option Reply
  | returned reply => some reply
  | begun | violated | answered _ => none

end Stage

structure Call where
  ask : Ask
  stage : Stage

/-- A client makes a call, a call takes a statement, or it returns. -/
inductive Move
  | call (ask : Ask)
  | advance (ticket : Nat)
  | leave (ticket : Nat)

/-- What the clients see. Calls are numbered as they come. -/
inductive Event
  | called (ticket : Nat) (ask : Ask)
  | returned (ticket : Nat) (reply : Reply)

end Contention

/-- A backend with the calls to it. -/
structure Contention where
  backend : Backend
  calls : List Contention.Call

namespace Backend

/-- The first statement of a call, which is the only one except for a put to a database. -/
def firstStatement (disk : Disk) (backend : Backend) (ask : Ask) : Contention.Stage × Backend :=
  match backend, ask with
  | .database held, ⟨.put code url owner⟩ =>
      match held.attempt code url owner with
      | (.settled answer, next) => (.answered ⟨answer⟩, .database next)
      | (.violated, next) => (.violated, .database next)
  | backend, ask =>
      let answered := backend.perform disk ask.call
      (.answered ⟨answered.answer⟩, answered.backend)

def secondStatement? (backend : Backend) (ask : Ask) : Option Reply :=
  match backend, ask with
  | .database held, ⟨.put code url _⟩ => some ⟨held.resolveViolation code url⟩
  | _, _ => none

end Backend

namespace Contention

def move? (disk : Disk) (contention : Contention) : Move → Option (Contention × List Event)
  | .call ask =>
      some (⟨contention.backend, contention.calls ++ [⟨ask, .begun⟩]⟩,
        [.called contention.calls.length ask])
  | .advance ticket =>
      match contention.calls[ticket]? with
      | some ⟨ask, .begun⟩ =>
          let (stage, next) := contention.backend.firstStatement disk ask
          some (⟨next, contention.calls.set ticket ⟨ask, stage⟩⟩, [])
      | some ⟨ask, .violated⟩ =>
          (contention.backend.secondStatement? ask).map fun reply =>
            (⟨contention.backend, contention.calls.set ticket ⟨ask, .answered reply⟩⟩, [])
      | _ => none
  | .leave ticket =>
      match contention.calls[ticket]? with
      | some ⟨ask, .answered reply⟩ =>
          some (⟨contention.backend, contention.calls.set ticket ⟨ask, .returned reply⟩⟩,
            [.returned ticket reply])
      | _ => none

def run? (disk : Disk) (moves : List Move) (contention : Contention) :
    Option (Contention × List Event) :=
  takeAll? (move? disk) moves contention

/-- The insert of the call has violated the key, and would do so again or find its URL. -/
def Undecided (backend : Backend) (ask : Ask) : Prop :=
  ∃ held code url owner, backend = .database held ∧ ask = ⟨.put code url owner⟩ ∧
    held.Taken code url

variable {disk : Disk} {backend : Backend} {ask : Ask}

theorem undecided_perform {α : Type} (undecided : Undecided backend ask) (disk : Disk)
    (call : StoreCall α) : Undecided (backend.perform disk call).backend ask := by
  rcases undecided with ⟨held, code, url, owner, rfl, rfl, taken⟩
  exact ⟨_, code, url, owner, rfl, rfl, Database.taken_within taken (held.within_perform call)⟩

/-- The first statement does the whole call, or it changes nothing and leaves the call
undecided. -/
theorem first_statement_cases (disk : Disk) (backend : Backend) (ask : Ask) :
    backend.firstStatement disk ask =
        (.answered ⟨(backend.perform disk ask.call).answer⟩,
          (backend.perform disk ask.call).backend) ∨
      backend.firstStatement disk ask = (.violated, backend) ∧ Undecided backend ask := by
  unfold Backend.firstStatement
  split
  · rename_i held code url owner
    cases attempted : held.attempt code url owner with
    | mk outcome next =>
      cases outcome with
      | settled answer =>
        left
        simp only [Backend.perform, Backend.performDatabase, Database.put, attempted]
      | violated =>
        rcases Database.taken_of_attempt attempted with ⟨rfl, taken⟩
        exact .inr ⟨rfl, next, code, url, owner, rfl, rfl, taken⟩
  · exact .inl rfl

theorem second_statement (undecided : Undecided backend ask) (disk : Disk) :
    backend.secondStatement? ask = some ⟨(backend.perform disk ask.call).answer⟩ ∧
      (backend.perform disk ask.call).backend = backend := by
  rcases undecided with ⟨held, code, url, owner, rfl, rfl, taken⟩
  have whole := Database.put_of_taken taken owner
  simp only [Backend.secondStatement?, Backend.perform, Backend.performDatabase, whole]
  exact ⟨trivial, trivial⟩

/-- What may happen: a client makes a call, a put finds that it needs its second statement, a call
takes effect and has its answer, or it returns. -/
inductive Moved (disk : Disk) (before : Contention) : Contention → List Event → Prop
  | called (ask : Ask) :
      Moved disk before ⟨before.backend, before.calls ++ [⟨ask, .begun⟩]⟩
        [.called before.calls.length ask]
  | violated {ticket : Nat} {ask : Ask} (waits : before.calls[ticket]? = some ⟨ask, .begun⟩)
      (undecided : Undecided before.backend ask) :
      Moved disk before ⟨before.backend, before.calls.set ticket ⟨ask, .violated⟩⟩ []
  | decided {ticket : Nat} {ask : Ask} {stage : Stage}
      (waits : before.calls[ticket]? = some ⟨ask, stage⟩) (silent : stage.reply? = none) :
      Moved disk before
        ⟨(before.backend.perform disk ask.call).backend, before.calls.set ticket
          ⟨ask, .answered ⟨(before.backend.perform disk ask.call).answer⟩⟩⟩ []
  | returned {ticket : Nat} {ask : Ask} {reply : Reply}
      (waits : before.calls[ticket]? = some ⟨ask, .answered reply⟩) :
      Moved disk before ⟨before.backend, before.calls.set ticket ⟨ask, .returned reply⟩⟩
        [.returned ticket reply]

variable {before next : Contention} {made : List Event}

theorem moved_of_move {move : Move}
    (undecided : ∀ call ∈ before.calls, call.stage = .violated →
      Undecided before.backend call.ask)
    (moved : before.move? disk move = some (next, made)) : Moved disk before next made := by
  cases move with
  | call ask =>
    cases moved
    exact .called ask
  | advance ticket =>
    simp only [move?] at moved
    split at moved
    · rename_i ask waits
      rcases first_statement_cases disk before.backend ask with whole | ⟨violated, taken⟩
      · rw [whole] at moved
        cases moved
        exact .decided waits rfl
      · rw [violated] at moved
        cases moved
        exact .violated waits taken
    · rename_i ask waits
      have taken := undecided _ (List.mem_of_getElem? waits) rfl
      rcases second_statement taken disk with ⟨answered, same⟩
      rw [answered] at moved
      cases moved
      have done := @Moved.decided disk before ticket ask .violated waits rfl
      rw [same] at done
      exact done
    · cases moved
  | leave ticket =>
    simp only [move?] at moved
    split at moved
    · rename_i waits
      cases moved
      exact .returned waits
    · cases moved

def Call.asked? (call : Call) : Option Ask := some call.ask

def Call.reply? (call : Call) : Option Reply := call.stage.reply?

def Call.returned? (call : Call) : Option Reply := call.stage.returned?

def told {β : Type 1} (read : Call → Option β) (calls : List Call) (ticket : Nat) : Option β :=
  calls[ticket]?.bind read

section Told

variable {β : Type 1} {read : Call → Option β} {calls : List Call} {call new : Call}
  {ticket other : Nat}

theorem told_set (waits : calls[ticket]? = some call) :
    told read (calls.set ticket new) other =
      if other = ticket then read new else told read calls other := by
  have within : ticket < calls.length := by
    by_contra beyond
    rw [List.getElem?_eq_none (Nat.le_of_not_lt beyond)] at waits
    cases waits
  by_cases same : other = ticket
  · subst same
    simp [told, within]
  · rw [if_neg same, told, told, List.getElem?_set_ne fun equal => same equal.symm]

theorem told_set_same (waits : calls[ticket]? = some call) (same : read new = read call) :
    told read (calls.set ticket new) other = told read calls other := by
  rw [told_set waits]
  by_cases equal : other = ticket
  · rw [if_pos equal, same, equal, told, waits]
    rfl
  · rw [if_neg equal]

theorem told_append : told read (calls ++ [new]) other =
    if other = calls.length then read new else told read calls other := by
  by_cases same : other = calls.length
  · subst same
    simp [told]
  · rw [if_neg same, told, told]
    by_cases within : other < calls.length
    · rw [List.getElem?_append_left within]
    · rw [List.getElem?_eq_none (by simp; omega), List.getElem?_eq_none (by omega)]

theorem told_beyond : told read calls calls.length = none := by
  simp [told]

end Told

/-- A call that has its answer. -/
structure Done where
  ticket : Nat
  ask : Ask
  reply : Reply

/-- Calls one after the other that lead the backend where the moves have led it, with the answers
that they were given: those of the calls that have one, each once. A call that returned before
another was made stands before it. -/
structure Linear (disk : Disk) (first : Backend) (last : Contention) (events : List Event)
    (order : List Done) : Prop where
  serial : first.session disk (order.map Done.ask) = (order.map Done.reply, last.backend)
  once : (order.map Done.ticket).Nodup
  decided : ∀ done : Done, done ∈ order ↔
    told Call.asked? last.calls done.ticket = some done.ask ∧
      told Call.reply? last.calls done.ticket = some done.reply
  called : ∀ ticket ask, .called ticket ask ∈ events ↔
    told Call.asked? last.calls ticket = some ask
  returned : ∀ ticket reply, .returned ticket reply ∈ events ↔
    told Call.returned? last.calls ticket = some reply
  inTime : ∀ ticket reply later ask, [.returned ticket reply, .called later ask].Sublist events →
    later ∈ order.map Done.ticket → [ticket, later].Sublist (order.map Done.ticket)
  undecided : ∀ call ∈ last.calls, call.stage = .violated → Undecided last.backend call.ask

theorem linear_start (disk : Disk) (first : Backend) : Linear disk first ⟨first, []⟩ [] [] := by
  refine ⟨rfl, List.nodup_nil, ?_, ?_, ?_, ?_, ?_⟩ <;> simp [told]

/-- A call that has returned has its answer, and its place. -/
theorem done_of_returned {first : Backend} {last : Contention} {events : List Event}
    {order : List Done} (linear : Linear disk first last events order) {ticket : Nat}
    {reply : Reply} (returned : .returned ticket reply ∈ events) :
    ∃ done ∈ order, done.ticket = ticket ∧ done.reply = reply := by
  have left := (linear.returned ticket reply).1 returned
  rcases Option.bind_eq_some_iff.1 left with ⟨⟨ask, stage⟩, held, answered⟩
  have given : stage.reply? = some reply := by
    cases stage with
    | returned known => exact answered
    | _ => cases answered
  have known : told Call.asked? last.calls ticket = some ask := by
    rw [told, held]
    rfl
  have replied : told Call.reply? last.calls ticket = some reply := by
    rw [told, held]
    exact given
  exact ⟨⟨ticket, ask, reply⟩, (linear.decided _).2 ⟨known, replied⟩, rfl, rfl⟩

theorem sublist_snoc {α : Type 1} {values : List α} {one other last : α}
    (inside : [one, other].Sublist (values ++ [last])) :
    [one, other].Sublist values ∨ other = last := by
  rw [← List.reverse_sublist, List.reverse_append] at inside
  cases inside with
  | cons _ later => exact .inl (List.reverse_sublist.1 later)
  | cons_cons _ _ => exact .inr rfl

section Moves

variable {first : Backend} {past : List Event} {order : List Done} {ticket : Nat} {ask : Ask}

theorem linear_called (linear : Linear disk first before past order) (ask : Ask) :
    Linear disk first ⟨before.backend, before.calls ++ [⟨ask, .begun⟩]⟩
      (past ++ [.called before.calls.length ask]) order := by
  refine ⟨linear.serial, linear.once, ?_, ?_, ?_, ?_, ?_⟩
  · intro done
    rw [linear.decided, told_append, told_append]
    by_cases new : done.ticket = before.calls.length
    · simp [new, told_beyond, Call.reply?, Stage.reply?]
    · simp only [if_neg new]
  · intro ticket other
    rw [List.mem_append, List.mem_singleton, linear.called, told_append]
    by_cases new : ticket = before.calls.length
    · simp [new, told_beyond, Call.asked?, eq_comm]
    · simp [new]
  · intro ticket reply
    rw [List.mem_append, List.mem_singleton, linear.returned, told_append]
    by_cases new : ticket = before.calls.length
    · simp [new, told_beyond, Call.returned?, Stage.returned?]
    · simp [new]
  · intro ticket reply later other inside placed
    rcases sublist_snoc inside with old | new
    · exact linear.inTime ticket reply later other old placed
    · -- The new call has no place yet.
      cases new
      rcases List.mem_map.1 placed with ⟨done, listed, number⟩
      have known := ((linear.decided done).1 listed).1
      rw [number, told_beyond] at known
      cases known
  · intro call listed violated
    rcases List.mem_append.1 listed with old | new
    · exact linear.undecided call old violated
    · rw [List.mem_singleton.1 new] at violated
      cases violated

theorem linear_violated (linear : Linear disk first before past order)
    (waits : before.calls[ticket]? = some ⟨ask, .begun⟩)
    (undecided : Undecided before.backend ask) :
    Linear disk first ⟨before.backend, before.calls.set ticket ⟨ask, .violated⟩⟩ past order := by
  have asks (other : Nat) : told Call.asked? (before.calls.set ticket ⟨ask, .violated⟩) other =
      told Call.asked? before.calls other := told_set_same waits rfl
  have replies (other : Nat) : told Call.reply? (before.calls.set ticket ⟨ask, .violated⟩) other =
      told Call.reply? before.calls other := told_set_same waits rfl
  have returns (other : Nat) : told Call.returned? (before.calls.set ticket ⟨ask, .violated⟩)
      other = told Call.returned? before.calls other := told_set_same waits rfl
  refine ⟨linear.serial, linear.once, ?_, ?_, ?_, linear.inTime, ?_⟩
  · intro done
    rw [linear.decided, asks, replies]
  · intro other asked
    rw [linear.called, asks]
  · intro other reply
    rw [linear.returned, returns]
  · intro call listed violated
    rcases List.mem_or_eq_of_mem_set listed with old | rfl
    · exact linear.undecided call old violated
    · exact undecided

theorem linear_returned {reply : Reply} (linear : Linear disk first before past order)
    (waits : before.calls[ticket]? = some ⟨ask, .answered reply⟩) :
    Linear disk first ⟨before.backend, before.calls.set ticket ⟨ask, .returned reply⟩⟩
      (past ++ [.returned ticket reply]) order := by
  have asks (other : Nat) : told Call.asked? (before.calls.set ticket ⟨ask, .returned reply⟩)
      other = told Call.asked? before.calls other := told_set_same waits rfl
  have replies (other : Nat) : told Call.reply? (before.calls.set ticket ⟨ask, .returned reply⟩)
      other = told Call.reply? before.calls other := told_set_same waits rfl
  refine ⟨linear.serial, linear.once, ?_, ?_, ?_, ?_, ?_⟩
  · intro done
    rw [linear.decided, asks, replies]
  · intro other asked
    rw [List.mem_append, List.mem_singleton, linear.called, asks]
    simp
  · intro other given
    rw [List.mem_append, List.mem_singleton, linear.returned, told_set waits]
    by_cases same : other = ticket
    · have silent : told Call.returned? before.calls ticket = none := by
        rw [told, waits]
        rfl
      simp [same, silent, Call.returned?, Stage.returned?, eq_comm]
    · simp [same]
  · intro one given later asked inside placed
    rcases sublist_snoc inside with old | new
    · exact linear.inTime one given later asked old placed
    · cases new
  · intro call listed violated
    rcases List.mem_or_eq_of_mem_set listed with old | rfl
    · exact linear.undecided call old violated
    · cases violated

/-- The call that takes effect goes to the end. Whatever has returned stands before it. -/
theorem linear_decided {stage : Stage} (linear : Linear disk first before past order)
    (waits : before.calls[ticket]? = some ⟨ask, stage⟩) (silent : stage.reply? = none) :
    Linear disk first
      ⟨(before.backend.perform disk ask.call).backend, before.calls.set ticket
        ⟨ask, .answered ⟨(before.backend.perform disk ask.call).answer⟩⟩⟩ past
      (order ++ [⟨ticket, ask, ⟨(before.backend.perform disk ask.call).answer⟩⟩]) := by
  have told_waits {β : Type 1} (read : Call → Option β) :
      told read before.calls ticket = read ⟨ask, stage⟩ := by
    rw [told, waits]
    rfl
  have fresh : ticket ∉ order.map Done.ticket := by
    intro placed
    rcases List.mem_map.1 placed with ⟨done, listed, number⟩
    have known := ((linear.decided done).1 listed).2
    rw [number, told_waits, Call.reply?, silent] at known
    cases known
  have unreturned : stage.returned? = none := by
    cases stage <;> first | rfl | cases silent
  have asks (other : Nat) : told Call.asked? (before.calls.set ticket
      ⟨ask, .answered ⟨(before.backend.perform disk ask.call).answer⟩⟩) other =
        told Call.asked? before.calls other := told_set_same waits rfl
  have returns (other : Nat) : told Call.returned? (before.calls.set ticket
      ⟨ask, .answered ⟨(before.backend.perform disk ask.call).answer⟩⟩) other =
        told Call.returned? before.calls other := told_set_same waits unreturned.symm
  refine ⟨?_, ?_, ?_, ?_, ?_, ?_, ?_⟩
  · rw [List.map_append, List.map_append, Backend.session_append, linear.serial]
    rfl
  · rw [List.map_append]
    exact linear.once.append (List.nodup_singleton _) (List.disjoint_singleton.2 fresh)
  · intro done
    rw [List.mem_append, List.mem_singleton, asks, told_set waits]
    rcases done with ⟨number, asked, reply⟩
    by_cases same : number = ticket
    · subst same
      constructor
      · rintro (old | new)
        · exact absurd (List.mem_map_of_mem old) fresh
        · cases new
          exact ⟨told_waits Call.asked?, if_pos rfl⟩
      · rintro ⟨known, answered⟩
        rw [told_waits] at known
        rw [if_pos rfl] at answered
        cases known
        cases answered
        exact .inr rfl
    · rw [if_neg same, linear.decided]
      simp [same]
  · intro other asked
    rw [linear.called, asks]
  · intro other reply
    rw [linear.returned, returns]
  · intro one reply later asked between placed
    rw [List.map_append, List.mem_append] at placed
    rw [List.map_append]
    rcases placed with old | new
    · exact (linear.inTime one reply later asked between old).trans (List.sublist_append_left _ _)
    · obtain rfl : later = ticket := by simpa using new
      rcases done_of_returned linear (between.subset List.mem_cons_self) with
        ⟨done, listed, rfl, _⟩
      have front : [done.ticket].Sublist (order.map Done.ticket) :=
        List.singleton_sublist.2 (List.mem_map_of_mem listed)
      exact front.append (List.Sublist.refl [later])
  · intro call listed violated
    rcases List.mem_or_eq_of_mem_set listed with old | rfl
    · exact undecided_perform (linear.undecided call old violated) disk ask.call
    · cases violated

end Moves

theorem linear_moved {first : Backend} {past : List Event} {order : List Done}
    (linear : Linear disk first before past order) (moved : Moved disk before next made) :
    ∃ later, Linear disk first next (past ++ made) (order ++ later) := by
  cases moved with
  | called ask => exact ⟨[], (List.append_nil order).symm ▸ linear_called linear ask⟩
  | violated waits undecided =>
    rw [List.append_nil]
    exact ⟨[], (List.append_nil order).symm ▸ linear_violated linear waits undecided⟩
  | decided waits silent =>
    rw [List.append_nil]
    exact ⟨_, linear_decided linear waits silent⟩
  | returned waits => exact ⟨[], (List.append_nil order).symm ▸ linear_returned linear waits⟩

theorem linear_run {first : Backend} {moves : List Move} {last : Contention}
    {events : List Event} (ran : run? disk moves ⟨first, []⟩ = some (last, events)) :
    ∃ order, Linear disk first last events order := by
  have begins : ∃ order, Linear disk first ⟨first, []⟩ [] order := ⟨[], linear_start disk first⟩
  apply take_all_keeps (fun state past => ∃ order, Linear disk first state past order) _ begins ran
  rintro state next past made move ⟨order, linear⟩ moved
  rcases linear_moved linear (moved_of_move linear.undecided moved) with ⟨later, kept⟩
  exact ⟨_, kept⟩

def Done.Puts (done : Done) (code : ShortCode) (url : String)
    (answer : Except StorageError Unit) : Prop :=
  (∃ owner, done.ask = ⟨.put code url owner⟩) ∧ done.reply = ⟨answer⟩

def Done.failedPut (done : Done) : Bool :=
  done.ask.call.method = .put && !done.reply.succeeded

section Serial

variable {first last : Backend} {front back order : List Done} {done : Done}
  {code : ShortCode} {url : String} {answer : Except StorageError Unit}

theorem serial_at (serial : first.session disk ((front ++ done :: back).map Done.ask) =
      ((front ++ done :: back).map Done.reply, last)) :
    done.reply =
        ⟨((first.session disk (front.map Done.ask)).2.perform disk done.ask.call).answer⟩ ∧
      ((first.session disk (front.map Done.ask)).2.perform disk done.ask.call).backend.session disk
        (back.map Done.ask) = (back.map Done.reply, last) := by
  have sizes : (first.session disk (front.map Done.ask)).1.length =
      (front.map Done.reply).length := by
    rw [Backend.session_length, List.length_map, List.length_map]
  rw [List.map_append, List.map_cons, Backend.session_append, Backend.session_cons,
    List.map_append, List.map_cons, Prod.mk.injEq] at serial
  rcases serial with ⟨replies, reached⟩
  rcases List.cons.inj (List.append_inj replies sizes).2 with ⟨reply, later⟩
  exact ⟨reply.symm, Prod.ext later reached⟩

theorem within_session (disk : Disk) (backend : Backend) (asks : List Ask) :
    backend.Within (backend.session disk asks).2 := by
  induction asks generalizing backend with
  | nil => exact backend.within_refl
  | cons ask asks ih => exact Backend.within_trans (backend.within_perform disk ask.call) (ih _)

theorem put_at (serial : first.session disk ((front ++ done :: back).map Done.ask) =
      ((front ++ done :: back).map Done.reply, last)) (puts : done.Puts code url answer) :
    ∃ after, Backend.PutShows (first.session disk (front.map Done.ask)).2 code url answer after ∧
      after.session disk (back.map Done.ask) = (back.map Done.reply, last) := by
  rcases serial_at serial with ⟨replied, later⟩
  rcases done with ⟨ticket, ask, reply⟩
  rcases puts with ⟨⟨owner, asked⟩, given⟩
  simp only at replied later asked given
  subst asked given
  have shown := Backend.put_shows disk (first.session disk (front.map Done.ask)).2 code url owner
  cases replied
  exact ⟨_, shown, later⟩

/-- Once a put is stored no other is stored for its code or its URL. -/
theorem stored_apart (serial : first.session disk ((front ++ done :: back).map Done.ask) =
      ((front ++ done :: back).map Done.reply, last)) (puts : done.Puts code url (.ok ()))
    {other : Done} (behind : other ∈ back) {otherCode : ShortCode} {otherUrl : String}
    (again : other.Puts otherCode otherUrl (.ok ())) : code ≠ otherCode ∧ url ≠ otherUrl := by
  rcases put_at serial puts with ⟨after, shown, later⟩
  rcases List.mem_iff_append.1 behind with ⟨middle, rest, rfl⟩
  rcases put_at later again with ⟨_, shownAgain, _⟩
  have stays := within_session disk after (middle.map Done.ask)
  generalize (after.session disk (middle.map Done.ask)).2 = between at shownAgain stays
  cases shown with
  | stored _ _ hasUrl hasCode =>
    cases shownAgain with
    | stored newUrl newCode _ _ =>
      constructor
      · rintro rfl
        rw [stays.codes code hasCode] at newCode
        cases newCode
      · rintro rfl
        rw [stays.urls url hasUrl] at newUrl
        cases newUrl

theorem failed_put_unchanged (failed : done.failedPut = true)
    (replied : done.reply = ⟨(first.perform disk done.ask.call).answer⟩) :
    (first.perform disk done.ask.call).backend = first := by
  rcases done with ⟨ticket, ⟨call⟩, reply⟩
  simp only at replied
  subst replied
  cases call with
  | put code url owner =>
    have shown := Backend.put_shows disk first code url owner
    simp only [Done.failedPut, Reply.succeeded] at failed ⊢
    generalize first.perform disk (.put code url owner) = answered at shown failed ⊢
    rcases answered with ⟨answer, after, notices⟩
    cases shown with
    | stored => simp [Except.isOk, Except.toBool] at failed
    | conflict | collision | broken => rfl
  | _ => simp [Done.failedPut, StoreCall.method] at failed

theorem failed_puts_idle (serial : first.session disk (order.map Done.ask) =
      (order.map Done.reply, last)) :
    (first.session disk ((order.filter fun done => !done.failedPut).map Done.ask)).2 = last := by
  induction order generalizing first with
  | nil => exact congrArg Prod.snd serial
  | cons done order ih =>
    have split : first.session disk (([] ++ done :: order).map Done.ask) =
        (([] ++ done :: order).map Done.reply, last) := serial
    rcases serial_at split with ⟨replied, later⟩
    have rest := ih later
    cases failed : done.failedPut with
    | false =>
      rw [List.filter_cons_of_pos (by simp [failed])]
      exact rest
    | true =>
      have same := failed_put_unchanged failed replied
      rw [List.filter_cons_of_neg (by simp [failed])]
      rw [same] at rest
      exact rest

end Serial

/-- An order of calls that the clients cannot tell from what they have seen: one after the other
they give the same answers and lead to the same backend, and a call that returned before another
was made stands before it. -/
structure Linearizes (disk : Disk) (first last : Backend) (events : List Event)
    (order : List Done) : Prop where
  serial : first.session disk (order.map Done.ask) = (order.map Done.reply, last)
  once : (order.map Done.ticket).Nodup
  calls : ∀ done ∈ order, .called done.ticket done.ask ∈ events
  replies : ∀ ticket reply, .returned ticket reply ∈ events →
    ∃ done ∈ order, done.ticket = ticket ∧ done.reply = reply
  inTime : ∀ ticket reply later ask, [.returned ticket reply, .called later ask].Sublist events →
    later ∈ order.map Done.ticket → [ticket, later].Sublist (order.map Done.ticket)

/-- What the puts of an order have done. The last backend may be the one at the moment when a put
returns, as moves may end anywhere. -/
structure PutsApart (disk : Disk) (first last : Backend) (order : List Done) : Prop where
  stored : ∀ one ∈ order, ∀ other ∈ order, ∀ {code otherCode : ShortCode} {url otherUrl : String},
    one.Puts code url (.ok ()) → other.Puts otherCode otherUrl (.ok ()) →
      code = otherCode ∨ url = otherUrl → one = other
  failed : (first.session disk
    ((order.filter fun done => !done.failedPut).map Done.ask)).2 = last
  conflict : ∀ done ∈ order, ∀ {code : ShortCode} {url other : String},
    done.Puts code url (.error (.conflict other)) → other = url ∧ last.hasUrl url = true
  collision : ∀ front done back, order = front ++ done :: back →
    ∀ {code : ShortCode} {url text : String}, done.Puts code url (.error (.codeCollision text)) →
      text = code.text ∧ (first.session disk (front.map Done.ask)).2.hasCode code = true ∧
        last.hasCode code = true

theorem linearizes_of_linear {first : Backend} {last : Contention} {events : List Event}
    {order : List Done} (linear : Linear disk first last events order) :
    Linearizes disk first last.backend events order :=
  ⟨linear.serial, linear.once,
    fun done listed => (linear.called _ _).2 ((linear.decided done).1 listed).1,
    fun _ _ returned => done_of_returned linear returned, linear.inTime⟩

theorem puts_apart {first last : Backend} {order : List Done}
    (serial : first.session disk (order.map Done.ask) = (order.map Done.reply, last)) :
    PutsApart disk first last order := by
  refine ⟨?_, failed_puts_idle serial, ?_, ?_⟩
  · intro one listed other found code otherCode url otherUrl puts again clash
    rcases List.mem_iff_append.1 listed with ⟨front, back, rfl⟩
    rcases List.mem_append.1 found with before | rest
    · rcases List.mem_iff_append.1 before with ⟨early, middle, rfl⟩
      rw [List.append_assoc, List.cons_append] at serial
      have apart := stored_apart serial again (List.mem_append_right _ List.mem_cons_self) puts
      exact absurd clash (not_or.2 ⟨apart.1.symm, apart.2.symm⟩)
    · rcases List.mem_cons.1 rest with same | behind
      · exact same.symm
      · exact absurd clash (not_or.2 (stored_apart serial puts behind again))
  · intro done listed code url other puts
    rcases List.mem_iff_append.1 listed with ⟨front, back, rfl⟩
    rcases put_at serial puts with ⟨after, shown, later⟩
    have stays := within_session disk after (back.map Done.ask)
    rw [later] at stays
    cases shown with
    | conflict hasUrl => exact ⟨rfl, stays.urls url hasUrl⟩
    | broken noConflict _ => exact absurd rfl (noConflict other)
  · rintro front done back rfl code url text puts
    rcases put_at serial puts with ⟨after, shown, later⟩
    have stays := within_session disk after (back.map Done.ask)
    rw [later] at stays
    cases shown with
    | collision hasCode => exact ⟨rfl, hasCode, stays.codes code hasCode⟩
    | broken _ noCollision => exact absurd rfl (noCollision text)

/-- However the statements of the calls come in between each other, on whatever backend, there is
an order of the calls that explains every answer and the end. -/
theorem contention_is_linearizable {first : Backend} {moves : List Move} {last : Contention}
    {events : List Event} (ran : run? disk moves ⟨first, []⟩ = some (last, events)) :
    ∃ order, Linearizes disk first last.backend events order ∧
      PutsApart disk first last.backend order := by
  rcases linear_run ran with ⟨order, linear⟩
  exact ⟨order, linearizes_of_linear linear, puts_apart linear.serial⟩

/-- The code of the put was taken and its URL free, until a batch that was called later came in
between its two statements. -/
def overtaken : List Move :=
  [.call ⟨.put ⟨"a"⟩ "http://1" "u1"⟩, .advance 0,
    .call ⟨.putBatch [⟨⟨"b"⟩, "http://1"⟩] "u2"⟩, .advance 1, .leave 1, .advance 0, .leave 0]

theorem overtaken_put_is_linearizable :
    ∃ last events order,
      run? .roomy overtaken
        ⟨.database (⟨[⟨⟨"a"⟩, "http://0", "u1", false⟩]⟩ : Ledger).database, []⟩ =
          some (last, events) ∧
      .returned 0 (@Reply.mk Unit (.error (.conflict "http://1"))) ∈ events ∧
      Linearizes .roomy (.database (⟨[⟨⟨"a"⟩, "http://0", "u1", false⟩]⟩ : Ledger).database)
        last.backend events order ∧
      last.backend.hasUrl "http://1" = true := by
  obtain ⟨last, events, ran, seen⟩ : ∃ last events, run? .roomy overtaken
      ⟨.database (⟨[⟨⟨"a"⟩, "http://0", "u1", false⟩]⟩ : Ledger).database, []⟩ =
        some (last, events) ∧
      events = [.called 0 ⟨.put ⟨"a"⟩ "http://1" "u1"⟩,
        .called 1 ⟨.putBatch [⟨⟨"b"⟩, "http://1"⟩] "u2"⟩, .returned 1 (@Reply.mk Unit (.ok ())),
        .returned 0 (@Reply.mk Unit (.error (.conflict "http://1")))] := ⟨_, _, rfl, rfl⟩
  rcases contention_is_linearizable ran with ⟨order, linearizes, apart⟩
  have returned : .returned 0 (@Reply.mk Unit (.error (.conflict "http://1"))) ∈ events := by
    simp [seen]
  rcases linearizes.replies _ _ returned with ⟨done, listed, number, replied⟩
  have called := linearizes.calls done listed
  rw [number, seen] at called
  have asked : done.ask = ⟨.put ⟨"a"⟩ "http://1" "u1"⟩ := by simpa using called
  exact ⟨last, events, order, ran, returned, linearizes,
    (apart.conflict done listed ⟨⟨"u1", asked⟩, replied⟩).2⟩

end Contention

end ShortLinks
