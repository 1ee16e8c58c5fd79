import ShortLinks.CommandLine.Run
import ShortLinks.Proofs.OfficeLedger
import ShortLinks.Proofs.PipelineAlone

/-!
# The order in which an office works

While a command is carried out the pipeline goes on by itself, and nothing says in which order. So
what a command leads to is a relation, and the office that runs is one case of it. Of a new office
that carries out one command and closes, all cases lead to the same: to the answer, and to the
ledger, of an office that stays and applies every deletion at once.
-/

namespace ShortLinks.CommandLine

set_option autoImplicit false

open Deletion (Entry Event Pipeline accepted asked discarded ended refused)

namespace Finished

def of : Except Failure String → Finished
  | .ok output => .success output
  | .error why => .failure why

def closing (closed : Except ServiceError Unit) (outcome : Except Failure String) : Finished :=
  match closed, outcome with
  | .error error, .ok output =>
      { Finished.failure ⟨"failed to close storage", some error.message⟩ with output }
  | .error error, .error _ =>
      Finished.failure ⟨"failed to close storage", some error.message⟩
  | .ok _, .ok output => .success output
  | .ok _, .error why => .failure why

theorem closing_ok (outcome : Except Failure String) : closing (.ok ()) outcome = of outcome := by
  cases outcome <;> rfl

end Finished

namespace Office

/-- The pipeline goes on for a while, and applies to the store what the workers come to. -/
structure Works (office : Office) (events : List Event) (last : Office) : Prop where
  goes : Pipeline.Works applyRequest office.pipeline office.store events last.pipeline last.store
  shortener : last.shortener = office.shortener

def bring (office : Office) (request : Deletion.Request) : Office :=
  { office with pipeline := (office.pipeline.accept request).1 }

def shut (office : Office) : Office := { office with pipeline := (office.pipeline.close .drain).1 }

/-- What the call that brought a request hears of it. -/
inductive Hears (entry : Entry) (events : List Event) : Except ServiceError Unit → Prop
  | accepted (told : .accepted entry ∈ events) : Hears entry events (.ok ())
  | refused (told : .refused entry ∈ events) : Hears entry events (.error .pipelineClosed)

def deletionAnswered (codes : List ShortCode) (answer : Except ServiceError Unit) :
    Except Failure String :=
  answered answer fun _ =>
    told ("accepted " ++ toString codes.length ++ " code(s) for deletion")

/-- A command is carried out while the pipeline goes on. A deletion is answered as soon as its
request is accepted or refused. -/
inductive Obeys (user : String) : Command → Office → Except Failure String → Office → Prop
  | direct {command : Command} {office ready last : Office} {before after : List Event}
      (direct : command.Direct) (first : office.Works before ready)
      (later : (ready.obey user command).2.Works after last) :
      Obeys user command office (ready.obey user command).1 last
  | delete {codes : List ShortCode} {office ready last : Office} {before after : List Event}
      {answer : Except ServiceError Unit} (first : office.Works before ready)
      (later : (ready.bring ⟨user, codes⟩).Works after last)
      (hears : Hears ⟨ready.pipeline.issued, ⟨user, codes⟩⟩
        ((ready.pipeline.accept ⟨user, codes⟩).2 ++ after) answer) :
      Obeys user (.delete codes) office (deletionAnswered codes answer) last

/-- A drain goes on until it returns. Then the store is closed. -/
inductive Drains (office : Office) : Except ServiceError Unit → Office → Prop
  | returned {closed : Office} {events : List Event} (works : office.shut.Works events closed)
      (returned : closed.pipeline.progress? office.pipeline.closers.length = some .returned) :
      Drains office (closed.inquire .closeStore).1 (closed.inquire .closeStore).2

/-- A command is carried out, and the office closes behind it. -/
inductive Serves (user : String) (command : Command) (office : Office) : Finished → Office → Prop
  | closed {behind last : Office} {outcome : Except Failure String}
      {closed : Except ServiceError Unit} (obeys : Obeys user command office outcome behind)
      (drains : behind.Drains closed last) :
      Serves user command office (.closing closed outcome) last

/-- What a command leads to where every deletion is applied at once. -/
inductive Leads (terms : Terms) (user : String) (view : View) :
    Command → Except Failure String → View → Prop
  | direct {command : Command} {outcome : Except Failure String} {next : View}
      (direct : command.Direct)
      (settles : Settles terms (fun office => office.obey user command) view outcome next) :
      Leads terms user view command outcome next
  | delete (codes : List ShortCode) :
      Leads terms user view (.delete codes) (deletionAnswered codes (.ok ()))
        { view with ledger := view.ledger.markDeleted codes user }

theorem leads_somewhere (terms : Terms) (user : String) (view : View) (command : Command) :
    ∃ outcome next, Leads terms user view command outcome next := by
  rcases command.direct_or_deletes with direct | ⟨codes, rfl⟩
  · rcases obey_settles terms view user direct with ⟨outcome, next, settles⟩
    exact ⟨outcome, next, .direct direct settles⟩
  · exact ⟨_, _, .delete codes⟩

variable {office last : Office} {past events : List Event}

theorem Works.untroubled (works : office.Works events last)
    (untroubled : office.pipeline.Untroubled past) : last.pipeline.Untroubled (past ++ events) :=
  works.goes.untroubled applyRequest_never untroubled

theorem Works.effect (works : office.Works events last) :
    last.store = Pipeline.effect applyRequest (ended events) office.store :=
  (works.goes.ran applyRequest_never).2

theorem Works.rests (works : office.Works events last)
    (untroubled : office.pipeline.Untroubled past) (none : asked past = []) :
    asked (past ++ events) = [] ∧ last.store = office.store := by
  have still : asked (past ++ events) = [] := by
    rw [Deletion.asked_append, none, works.goes.asks_nothing applyRequest_never, List.nil_append]
  have nothing := Pipeline.ended_none (works.untroubled untroubled).account still
  rw [Deletion.ended_append, List.append_eq_nil_iff] at nothing
  refine ⟨still, ?_⟩
  rw [works.effect, nothing.2]
  rfl

theorem closeStore_answer (office : Office) : (office.inquire .closeStore).1 = .ok () := by
  rcases office with ⟨⟨backend, home⟩, shortener, pipeline⟩
  cases backend <;> rfl

/-- A drain applies what is left of the one request, if there is one, and closes the store. -/
theorem Drains.reaches {behind : Office} {closing : Except ServiceError Unit}
    (drains : behind.Drains closing last) (untroubled : behind.pipeline.Untroubled past) :
    closing = .ok () ∧ last.shortener = behind.shortener ∧
      ∃ (closed : Store) (late : List Entry), last.store = (answerCall .shutdown closed).2 ∧
        closed = Pipeline.effect applyRequest late behind.store ∧
        (asked past = [] → late = []) ∧
        ∀ entry, asked past = [entry] → entry ∈ accepted past →
          ended past ++ late = [entry].filter Entry.filled := by
  cases drains with
  | @returned closed events works returned =>
    rcases untroubled.drained applyRequest_never works.goes returned with ⟨account, idle, kept⟩
    have quiet := works.goes.asks_nothing applyRequest_never
    have same : asked (past ++ ((behind.pipeline.close .drain).2 ++ events)) = asked past := by
      rw [Deletion.asked_append, Deletion.asked_append, quiet, List.append_nil]
      exact List.append_nil _
    have whole : ended (past ++ ((behind.pipeline.close .drain).2 ++ events)) =
        ended past ++ ended events := by
      rw [Deletion.ended_append, Deletion.ended_append]
      rfl
    refine ⟨closeStore_answer closed, works.shortener, closed.store, ended events, rfl,
      works.effect, ?_, ?_⟩
    · intro none
      have nothing := Pipeline.ended_none account (same.trans none)
      rw [whole, List.append_eq_nil_iff] at nothing
      exact nothing.2
    · intro entry lone taken
      have accepted : entry ∈ accepted (past ++ ((behind.pipeline.close .drain).2 ++ events)) := by
        rw [Deletion.accepted_append]
        exact List.mem_append_left _ taken
      -- Of a start only the account matters, which is empty whatever the settings are.
      have start := Pipeline.account_start ⟨0, 0⟩
      have applied := Pipeline.lone_ended start (Pipeline.idle_start ⟨0, 0⟩) account idle kept
        (same.trans lone) (.inl accepted)
      rw [← whole]
      exact applied.2

section Leads

variable {kept : Backend → Prop} {terms : Terms} {view next : View} {user : String}
  {command : Command} {outcome : Except Failure String}

/-- The office has closed a store that holds the ledger of the view. -/
structure Leaves (kept : Backend → Prop) (store : Store) (view : View) (last : Office) : Prop where
  codes : last.shortener.codes = view.codes
  closed : ∃ closed : Store, last.store = (answerCall .shutdown closed).2 ∧
    closed.backend.Holds view.ledger ∧ kept closed.backend ∧ closed.home = store.home

theorem direct_leaves (lasting : Backend.Lasting kept) {ready behind : Office}
    {before after : List Event} {closing : Except ServiceError Unit}
    (untroubled : office.pipeline.Untroubled []) (shows : office.Shows terms view)
    (held : kept office.store.backend) (direct : command.Direct)
    (settles : Settles terms (fun office => office.obey user command) view outcome next)
    (first : office.Works before ready) (later : (ready.obey user command).2.Works after behind)
    (drains : behind.Drains closing last) :
    (ready.obey user command).1 = outcome ∧ closing = .ok () ∧
      Leaves kept office.store next last := by
  rcases first.rests untroubled rfl with ⟨none, same⟩
  rw [← same] at held
  have readyShows : ready.Shows terms view := by
    constructor
    · rw [same]
      exact shows.holds
    · rw [same]
      exact shows.policy
    · rw [first.shortener]
      exact shows.baseUrl
    · rw [first.shortener]
      exact shows.codes
  rcases settles ready readyShows with ⟨answered, nextShows⟩
  rcases obey_lasting lasting held user direct with ⟨heldNext, home⟩
  have between : (ready.obey user command).2.pipeline.Untroubled ([] ++ before) := by
    rw [pipeline_direct ready user direct]
    exact first.untroubled untroubled
  rcases later.rests between none with ⟨silent, stays⟩
  rcases drains.reaches (later.untroubled between) with
    ⟨done, shortener, closed, late, stored, applied, nothing, _⟩
  rw [nothing silent] at applied
  have reached : closed = (ready.obey user command).2.store := applied.trans stays
  refine ⟨answered, done, ?_, closed, stored, ?_⟩
  · rw [shortener, later.shortener]
    exact nextShows.codes
  · rw [reached, home, same]
    exact ⟨nextShows.holds, heldNext, rfl⟩

theorem delete_leaves (lasting : Backend.Lasting kept) {ready behind : Office}
    {before after : List Event} {closing : Except ServiceError Unit} {codes : List ShortCode}
    {answer : Except ServiceError Unit}
    (untroubled : office.pipeline.Untroubled []) (shows : office.Shows terms view)
    (held : kept office.store.backend) (first : office.Works before ready)
    (later : (ready.bring ⟨user, codes⟩).Works after behind)
    (hears : Hears ⟨ready.pipeline.issued, ⟨user, codes⟩⟩
      ((ready.pipeline.accept ⟨user, codes⟩).2 ++ after) answer)
    (drains : behind.Drains closing last) :
    answer = .ok () ∧ closing = .ok () ∧
      Leaves kept office.store { view with ledger := view.ledger.markDeleted codes user } last := by
  rcases first.rests untroubled rfl with ⟨none, same⟩
  have brought := later.untroubled ((first.untroubled untroubled).brought ⟨user, codes⟩)
  rw [List.nil_append, List.append_assoc] at brought
  let entry : Entry := ⟨ready.pipeline.issued, ⟨user, codes⟩⟩
  have lone : asked (before ++ ((ready.pipeline.accept ⟨user, codes⟩).2 ++ after)) = [entry] := by
    rw [Deletion.asked_append, first.goes.asks_nothing applyRequest_never, Deletion.asked_append,
      later.goes.asks_nothing applyRequest_never, List.append_nil, List.nil_append]
    exact Pipeline.asked_accept ready.pipeline ⟨user, codes⟩
  have early : ended (before ++ ((ready.pipeline.accept ⟨user, codes⟩).2 ++ after)) =
      ended after := by
    have nothing := Pipeline.ended_none (first.untroubled untroubled).account none
    rw [List.nil_append] at nothing
    rw [Deletion.ended_append, Deletion.ended_append, nothing, Pipeline.ended_accept]
    rfl
  rcases drains.reaches brought with ⟨done, shortener, closed, late, stored, applied, _, whole⟩
  have shop : last.shortener = office.shortener := by
    rw [shortener, later.shortener]
    exact first.shortener
  cases hears with
  | refused told =>
    -- Nobody has closed the pipeline yet, so it refuses nothing.
    have nobody := brought.serving.2
    have listed := Deletion.mem_refused.2 (List.mem_append_right before told)
    rw [nobody] at listed
    cases listed
  | accepted told =>
    have taken := Deletion.mem_accepted.2 (List.mem_append_right before told)
    have all := whole entry lone taken
    rw [early] at all
    have reached : closed =
        Pipeline.effect applyRequest ([entry].filter Entry.filled) office.store := by
      rw [applied, later.effect, ← Pipeline.effect_append, all, ← same]
      rfl
    rcases effect_lasting lasting ([entry].filter Entry.filled) held with ⟨keeps, home⟩
    refine ⟨rfl, done, ?_, closed, stored, ?_⟩
    · rw [shop]
      exact shows.codes
    · rw [reached]
      exact ⟨(effect_holds shows.holds entry).1, keeps, home⟩

/-- Whatever the order, a new office that carries out one command answers as is settled, and
leaves the ledger that is settled. -/
theorem serves_leads (lasting : Backend.Lasting kept) {finished : Finished}
    (untroubled : office.pipeline.Untroubled []) (shows : office.Shows terms view)
    (held : kept office.store.backend) (leads : Leads terms user view command outcome next)
    (serves : office.Serves user command finished last) :
    finished = .of outcome ∧ Leaves kept office.store next last := by
  cases serves with
  | closed obeys drains =>
    cases obeys with
    | direct direct first later =>
      cases leads with
      | delete codes => exact absurd rfl (direct codes)
      | direct _ settles =>
        rcases direct_leaves lasting untroubled shows held direct settles first later drains with
          ⟨rfl, rfl, leaves⟩
        exact ⟨Finished.closing_ok _, leaves⟩
    | delete first later hears =>
      cases leads with
      | direct direct => exact absurd rfl (direct _)
      | delete codes =>
        rcases delete_leaves lasting untroubled shows held first later hears drains with
          ⟨rfl, rfl, leaves⟩
        exact ⟨Finished.closing_ok _, leaves⟩

end Leads

end Office

end ShortLinks.CommandLine
