import ShortLinks.Proofs.PipelineDrain
import ShortLinks.Proofs.PipelineKeeping
import ShortLinks.Proofs.Reached
import ShortLinks.Proofs.Tombstones

/-!
# What a drain leaves in the store

When the one drain of a pipeline has returned, every accepted request has been handed to the
store, except those whose call was replaced by a failure or a panic. What the store holds then
depends on these requests alone: not on the workers, on their number or the room in the queue, nor
on the order in which anything happened. The log of a journal tells the same after it is opened
again, unless its last line was torn from the beginning and there was a tombstone to append.
-/

namespace ShortLinks

set_option autoImplicit false

open Deletion (Entry Event Move Pipeline Request brings takes)

namespace Deletion

/-- The request whose call ended without reaching the store. -/
def Event.replaced? : Event → Option Entry
  | ended _ entry (.failed _) => some entry
  | ended _ entry .panicked => some entry
  | _ => none

def replaced (events : List Event) : List Entry := events.filterMap Event.replaced?

def spared (events : List Event) : List Request :=
  ((accepted events).filter fun entry => entry ∉ replaced events).map Entry.request

theorem mem_honoured {events : List Event} {request : Request} :
    request ∈ honoured events ↔
      ∃ worker entry, .ended worker entry .applied ∈ events ∧ entry.request = request := by
  unfold honoured
  rw [List.mem_filterMap]
  constructor
  · rintro ⟨event, held, same⟩
    cases event with
    | ended worker entry outcome =>
      cases outcome with
      | applied => exact ⟨worker, entry, held, Option.some.inj same⟩
      | failed | panicked => cases same
    | _ => cases same
  · rintro ⟨worker, entry, held, rfl⟩
    exact ⟨_, held, rfl⟩

theorem mem_replaced {events : List Event} {entry : Entry} :
    entry ∈ replaced events ↔
      ∃ worker outcome, outcome ≠ .applied ∧ .ended worker entry outcome ∈ events := by
  unfold replaced
  rw [List.mem_filterMap]
  constructor
  · rintro ⟨event, held, same⟩
    cases event with
    | ended worker other outcome =>
      cases outcome with
      | applied => cases same
      | failed | panicked =>
        obtain rfl := Option.some.inj same
        exact ⟨worker, _, by simp, held⟩
    | _ => cases same
  · rintro ⟨worker, outcome, other, held⟩
    refine ⟨_, held, ?_⟩
    cases outcome with
    | applied => exact absurd rfl other
    | failed | panicked => rfl

theorem mem_spared {events : List Event} {request : Request} :
    request ∈ spared events ↔
      ∃ entry, .accepted entry ∈ events ∧ entry ∉ replaced events ∧ entry.request = request := by
  simp only [spared, List.mem_map, List.mem_filter, decide_eq_true_eq, mem_accepted, and_assoc]

theorem eq_of_read_once {α β : Type} {read : α → Option β} {values : List α}
    (once : (values.filterMap read).Nodup) {one other : α} {value : β} (first : one ∈ values)
    (second : other ∈ values) (reads : read one = some value)
    (same : read other = some value) : one = other := by
  induction values with
  | nil => cases first
  | cons head values ih =>
    have rest : (values.filterMap read).Nodup :=
      once.sublist ((List.sublist_cons_self head values).filterMap read)
    have alone : read head = some value → ∀ later ∈ values, read later ≠ some value := by
      intro found later held again
      rw [List.filterMap_cons_some found, List.nodup_cons] at once
      exact once.1 (List.mem_filterMap.2 ⟨later, held, again⟩)
    rcases List.mem_cons.1 first with rfl | early
    · rcases List.mem_cons.1 second with rfl | late
      · rfl
      · exact absurd same (alone reads other late)
    · rcases List.mem_cons.1 second with rfl | late
      · exact absurd reads (alone same one early)
      · exact ih rest early late

namespace Pipeline

variable {pipeline next : Pipeline} {events : List Event} {move : Move} {entry : Entry}

theorem ended_once (account : Account pipeline events) {first second : Nat}
    {one other : Outcome} (done : .ended first entry one ∈ events)
    (again : .ended second entry other ∈ events) : one = other := by
  have once : (ended events).Nodup := by
    have places := places_nodup account
    exact (List.nodup_append.1 (List.nodup_append.1 places).1).2.1
  have same : Event.ended first entry one = .ended second entry other :=
    eq_of_read_once once done again rfl rfl
  cases same
  rfl

/-- When nothing is left to do and nothing was discarded, what reached the store is what was
accepted, replaced calls apart. -/
theorem honoured_iff_spared (account : Account pipeline events) (idle : pipeline.Idle)
    (kept : discarded events = []) {request : Request} (filled : request.codes ≠ []) :
    request ∈ honoured events ↔ request ∈ spared events := by
  rw [mem_honoured, mem_spared]
  constructor
  · rintro ⟨worker, entry, done, rfl⟩
    have begun := account.begun_cases.2 (.inl (mem_ended.2 ⟨worker, .applied, done⟩))
    refine ⟨entry, mem_accepted.1 (account.accepted_of_begun begun).1, ?_, rfl⟩
    intro replaced
    rcases mem_replaced.1 replaced with ⟨other, outcome, different, again⟩
    exact different (ended_once account again done)
  · rintro ⟨entry, taken, spared, rfl⟩
    have begun : entry ∈ begun events := by
      rcases account.accepted_cases (mem_accepted.2 taken) (filled_iff.2 filled) with
        begun | dropped | queued
      · exact begun
      · rw [kept] at dropped
        cases dropped
      · rw [idle.queue] at queued
        cases queued
    rcases account.begun_cases.1 begun with done | applies
    · rcases mem_ended.1 done with ⟨worker, outcome, held⟩
      cases outcome with
      | applied => exact ⟨worker, entry, held, rfl⟩
      | failed | panicked => exact absurd (mem_replaced.2 ⟨worker, _, by simp, held⟩) spared
    · rw [idle.applied] at applies
      cases applies

theorem closers_grow_run {moves : List Move}
    (ran : run? moves pipeline = some (next, events)) :
    pipeline.closers.length ≤ next.closers.length :=
  run_keeps_always (fun now _ => pipeline.closers.length ≤ now.closers.length)
    (fun grown moved => grown.trans (closers_grow moved)) [] (Nat.le_refl _) ran

theorem closer_of_lone {closer : Nat} {progress : Progress}
    (called : pipeline.progress? closer = some progress) (lone : pipeline.closers.length ≤ 1) :
    closer = 0 := by
  rcases Option.map_eq_some_iff.1 called with ⟨call, held, _⟩
  have inside := (List.getElem?_eq_some_iff.1 held).1
  omega

theorem lone_has_workers {settings : DeletionSettings} {moves : List Move}
    (held : ∀ move ∈ moves, move ≠ .abandon)
    (ran : run? moves (start settings) = some (next, events)) (lone : next.closers.length ≤ 1)
    {closer : Nat} {progress : Progress} (called : next.progress? closer = some progress)
    (summoned : progress.summoned = true) : next.custody = .taken closer := by
  have joins := joins_of_run ran
  cases custody : next.custody with
  | kept =>
    rw [joins.early custody closer progress called] at summoned
    cases summoned
  | taken first =>
    rcases joins.joined first custody with ⟨other, found, _⟩
    rw [closer_of_lone called lone, closer_of_lone found lone]
  | dropped => exact absurd custody (custody_of_run held ran)

theorem lone_discards {settings : DeletionSettings} {moves : List Move}
    (held : ∀ move ∈ moves, move ≠ .abandon)
    (ran : run? moves (start settings) = some (next, events))
    (lone : next.closers.length = 1) : OvertakesIdle settings moves := by
  intro before move made between past after later front moved closer same
  subst same
  left
  have early : ∀ move ∈ before, move ≠ .abandon :=
    fun move member => held move (made.subset (List.mem_append_left _ member))
  rcases made with ⟨rest, rfl⟩
  rcases run_append ran with ⟨reached, _, _, whole, onwards, _⟩
  have bound : between.closers.length ≤ 1 := by
    rw [run_join front moved] at whole
    cases whole
    rw [← lone]
    exact (closers_grow (moved_of_move moved)).trans (closers_grow_run onwards)
  cases moved_of_move moved with
  | discard head called =>
    have taken := lone_has_workers early front bound (progress_inLine called) rfl
    exact ⟨closer, taken, .inl rfl⟩

/-- What the one drain of a pipeline leaves behind when it has returned. -/
theorem drained_idle {settings : DeletionSettings} {moves : List Move}
    (drains : ∀ move ∈ moves, move.OnlyDrains) {survivor : Nat}
    (real : survivor < max 1 settings.workers) (survives : .finish survivor .panicked ∉ moves)
    (ran : run? moves (start settings) = some (next, events))
    (returned : next.closers = [⟨.drain, .returned⟩]) :
    next.Idle ∧ discarded events = [] := by
  have lone : next.closers.length = 1 := by rw [returned]; rfl
  have held : ∀ move ∈ moves, move ≠ .abandon := fun move made => (drains move made).1
  have order := lone_discards held ran lone
  have called : next.progress? 0 = some .returned := by rw [progress?, returned]; rfl
  have taken := lone_has_workers held ran (Nat.le_of_eq lone) called rfl
  constructor
  · exact idle_of_joined (orderly_of_run drains real survives order ran) taken called rfl
  · exact (unspoilt_of_run drains (returns_idle_of_overtakes drains real survives order)
      ran).discarded

end Pipeline

end Deletion

namespace Backend

theorem perform_policy (disk : Disk) (backend : Backend) {α : Type} (call : StoreCall α) :
    (backend.perform disk call).backend.batchPolicy = backend.batchPolicy := by
  cases backend <;> rfl

theorem honour_policy {requests : List Request} {backend next : Backend}
    (reached : honour? requests backend = some next) :
    next.batchPolicy = backend.batchPolicy := by
  induction requests generalizing backend with
  | nil =>
    cases reached
    rfl
  | cons request requests ih =>
    simp only [honour?] at reached
    split at reached
    · exact (ih reached).trans (perform_policy _ _ _)
    · cases reached

/-- The one store has become the other by the tombstones that the requests ask for. -/
structure Buried (backend : Backend) (ledger : Ledger) (requests : List Request)
    (next : Backend) : Prop where
  holds : next.Holds (ledger.tombstoned requests)
  policy : next.batchPolicy = backend.batchPolicy
  listed : ∀ owner, (next.perform .roomy (.listByOwner owner)).answer =
    .ok ((ledger.listByOwner owner).map (LinkRecord.tombstoned requests))
  found : ∀ url, (next.perform .roomy (.findUrl url)).answer =
    (backend.perform .roomy (.findUrl url)).answer
  counted : (next.perform .roomy .stats).answer = (backend.perform .roomy .stats).answer
  replayed : ∀ path journal, backend = .journal path journal →
    (replay journal.log).outcome = .ok journal.index →
      ∃ after, next = .journal path after ∧ (replay after.log).outcome =
        if Torn journal.log ∧ ledger.tombstoned requests ≠ ledger then
          .error (.invalidData ("log line " ++
            toString (Text.splitLines journal.log).length ++ ": " ++ "trailing characters"))
        else .ok (ledger.tombstoned requests).index

theorem Buried.congr {backend next : Backend} {ledger : Ledger} {first second : List Request}
    (buried : backend.Buried ledger first next)
    (same : ∀ request, request.codes ≠ [] → (request ∈ first ↔ request ∈ second)) :
    backend.Buried ledger second next := by
  have each := LinkRecord.tombstoned_congr same
  have whole : ledger.tombstoned first = ledger.tombstoned second := by
    rw [Ledger.tombstoned, Ledger.tombstoned, each]
  refine ⟨?_, buried.policy, ?_, buried.found, buried.counted, ?_⟩
  · rw [← whole]
    exact buried.holds
  · rw [← each]
    exact buried.listed
  · rw [← whole]
    exact buried.replayed

theorem honour_buries {backend next : Backend} {ledger : Ledger} (holds : backend.Holds ledger)
    {requests : List Request} (reached : honour? requests backend = some next) :
    backend.Buried ledger requests next := by
  have held : next.Holds (ledger.tombstoned requests) := by
    rcases honour_holds holds requests with ⟨other, honoured, kept⟩
    rw [reached] at honoured
    cases honoured
    rw [← Ledger.honour_tombstoned]
    exact kept
  refine ⟨held, honour_policy reached, ?_, ?_, ?_, ?_⟩
  · intro owner
    rw [(holds_perform held (.listByOwner owner) rfl).1]
    exact congrArg Except.ok (ledger.tombstoned_listByOwner requests owner)
  · intro url
    rw [(holds_perform held (.findUrl url) rfl).1, (holds_perform holds (.findUrl url) rfl).1]
    exact congrArg Except.ok (ledger.tombstoned_findUrl requests url)
  · rw [(holds_perform held .stats rfl).1, (holds_perform holds .stats rfl).1]
    exact congrArg Except.ok (ledger.tombstoned_stats requests)
  · rintro path journal rfl replayed
    rcases honour_grown reached with ⟨after, rfl, _⟩
    exact ⟨after, rfl, honour_replayed holds.keeps replayed reached held.keeps⟩

end Backend

/-- The run of a pipeline on the backend is over: its one closing call was a drain and has
returned, and some worker has not panicked. -/
structure Drained (settings : DeletionSettings) (backend : Backend) (moves : List Move)
    (desk : Desk) (events : List Event) : Prop where
  drains : ∀ move ∈ moves, move.OnlyDrains
  survivor : ∃ worker < max 1 settings.workers, .finish worker .panicked ∉ moves
  ran : Desk.run? moves ⟨.start settings, backend⟩ = some (desk, events)
  returned : desk.pipeline.closers = [⟨.drain, .returned⟩]

theorem Drained.buries {settings : DeletionSettings} {backend : Backend} {ledger : Ledger}
    {moves : List Move} {desk : Desk} {events : List Event}
    (drained : Drained settings backend moves desk events) (holds : backend.Holds ledger) :
    backend.Buried ledger (Deletion.spared events) desk.backend := by
  rcases drained.survivor with ⟨worker, real, survives⟩
  rcases Desk.run_splits drained.ran with ⟨ran, reached⟩
  rcases Pipeline.drained_idle drained.drains real survives ran drained.returned with ⟨idle, kept⟩
  have account := Pipeline.account_of_run ran
  exact (Backend.honour_buries holds reached).congr fun request filled =>
    Pipeline.honoured_iff_spared account idle kept filled

/-- The store that a drain leaves is settled by the store before it and by the requests that were
not replaced. Every other drained run with the same requests leaves the same, with other workers,
in another order, or on another store that holds the same records. -/
theorem drain_settles_store {settings : DeletionSettings} {backend : Backend}
    {moves : List Move} {desk : Desk} {events : List Event} (reached : backend.Reached)
    (drained : Drained settings backend moves desk events) :
    ∃ ledger, backend.Holds ledger ∧
      backend.Buried ledger (Deletion.spared events) desk.backend ∧
      ∀ (otherSettings : DeletionSettings) (other : Backend) (otherMoves : List Move)
        (otherDesk : Desk) (otherEvents : List Event), other.Holds ledger →
        Drained otherSettings other otherMoves otherDesk otherEvents →
        (∀ request, request ∈ Deletion.spared otherEvents ↔ request ∈ Deletion.spared events) →
          other.Buried ledger (Deletion.spared events) otherDesk.backend ∧
            (other.batchPolicy = backend.batchPolicy →
              ∀ asks, (∀ ask ∈ asks, Ask.aboutRecords ask = true) →
                (otherDesk.backend.session .roomy asks).1 =
                  (desk.backend.session .roomy asks).1) := by
  rcases Backend.reached_holds reached with ⟨ledger, holds⟩
  have buried := drained.buries holds
  refine ⟨ledger, holds, buried, ?_⟩
  intro otherSettings other otherMoves otherDesk otherEvents otherHolds otherDrained same
  have alike := (otherDrained.buries otherHolds).congr fun request _ => same request
  refine ⟨alike, ?_⟩
  intro kind asks records
  rw [Backend.session_as_ledger alike.holds.keeps alike.holds.distinct asks records,
    Backend.session_as_ledger buried.holds.keeps buried.holds.distinct asks records,
    alike.policy, buried.policy, kind]

def stock : Ledger :=
  ⟨[⟨⟨"a"⟩, "http://a", "u1", false⟩, ⟨⟨"b"⟩, "http://b", "u1", false⟩,
    ⟨⟨"c"⟩, "http://c", "u2", true⟩, ⟨⟨"d"⟩, "http://d", "u2", false⟩]⟩

/-- Codes that are another's, missing or there twice, and a call that fails. -/
def oneByOne : List Move :=
  brings ⟨"u1", [⟨"a"⟩, ⟨"d"⟩, ⟨"x"⟩]⟩ ++ takes 0 ++ brings ⟨"u2", [⟨"d"⟩]⟩ ++
    [.accept ⟨"u1", [⟨"a"⟩, ⟨"a"⟩]⟩, .close .drain, .finish 0 .applied] ++ takes 0 ++
    [.grant, .deliver, .takeOver 0, .finish 0 (.failed (.query "locked"))] ++ takes 0 ++
    [.finish 0 .applied, .look 0, .listen 0, .leave 0, .join 0, .queueUp 0, .discard 0]

/-- The same requests for two workers in another order, and the call panics. -/
def sideBySide : List Move :=
  brings ⟨"u2", [⟨"d"⟩]⟩ ++ brings ⟨"u1", [⟨"a"⟩, ⟨"a"⟩]⟩ ++
    brings ⟨"u1", [⟨"a"⟩, ⟨"d"⟩, ⟨"x"⟩]⟩ ++ takes 0 ++ takes 1 ++
    [.finish 0 .panicked, .finish 1 .applied] ++ takes 1 ++
    [.close .drain, .finish 1 .applied, .look 1, .listen 1, .leave 1, .takeOver 0, .join 0,
      .join 0, .queueUp 0, .discard 0]

theorem stock_reached : (Backend.memory stock.index).Reached := by
  have first := Backend.Reached.memory.call .roomy (.put ⟨"a"⟩ "http://a" "u1") (by decide)
  have second := first.call .roomy (.put ⟨"b"⟩ "http://b" "u1") (by decide)
  have third := second.call .roomy (.put ⟨"c"⟩ "http://c" "u2") (by decide)
  have fourth := third.call .roomy (.put ⟨"d"⟩ "http://d" "u2") (by decide)
  exact fourth.call .roomy (.markDeleted [⟨"c"⟩] "u2") (by decide)

theorem stock_settles_alike :
    (Backend.memory stock.index).Reached ∧
      ∃ desk events other others,
        Drained ⟨1, 0⟩ (.memory stock.index) oneByOne desk events ∧
        Drained ⟨2, 4⟩ (.database stock.database) sideBySide other others ∧
        (Backend.memory stock.index).Buried stock (Deletion.spared events) desk.backend ∧
        (Backend.database stock.database).Buried stock (Deletion.spared events) other.backend ∧
        stock.tombstoned (Deletion.spared events) =
          ⟨[⟨⟨"a"⟩, "http://a", "u1", true⟩, ⟨⟨"b"⟩, "http://b", "u1", false⟩,
            ⟨⟨"c"⟩, "http://c", "u2", true⟩, ⟨⟨"d"⟩, "http://d", "u2", false⟩]⟩ := by
  obtain ⟨desk, events, drained, spared⟩ : ∃ desk events,
      Drained ⟨1, 0⟩ (.memory stock.index) oneByOne desk events ∧
        Deletion.spared events =
          [⟨"u1", [⟨"a"⟩, ⟨"d"⟩, ⟨"x"⟩]⟩, ⟨"u1", [⟨"a"⟩, ⟨"a"⟩]⟩] :=
    ⟨_, _, ⟨by simp [oneByOne, brings, takes, Move.OnlyDrains], ⟨0, by decide, by decide⟩, rfl, rfl⟩,
      rfl⟩
  obtain ⟨other, others, otherDrained, otherSpared⟩ : ∃ other others,
      Drained ⟨2, 4⟩ (.database stock.database) sideBySide other others ∧
        Deletion.spared others =
          [⟨"u1", [⟨"a"⟩, ⟨"a"⟩]⟩, ⟨"u1", [⟨"a"⟩, ⟨"d"⟩, ⟨"x"⟩]⟩] :=
    ⟨_, _, ⟨by simp [sideBySide, brings, takes, Move.OnlyDrains], ⟨1, by decide, by decide⟩, rfl, rfl⟩,
      rfl⟩
  have same : ∀ request, request ∈ Deletion.spared others ↔ request ∈ Deletion.spared events := by
    intro request
    rw [spared, otherSpared, List.mem_pair, List.mem_pair, or_comm]
  obtain ⟨ledger, holds, buried, alike⟩ := drain_settles_store stock_reached drained
  obtain rfl : stock = ledger := Ledger.index_injective holds.keeps
  have inTable : (Backend.database stock.database).Holds stock := ⟨rfl, holds.distinct⟩
  have others := alike ⟨2, 4⟩ (.database stock.database) sideBySide other others inTable
    otherDrained same
  refine ⟨stock_reached, desk, events, other, _, drained, otherDrained, buried, others.1, ?_⟩
  rw [spared]
  rfl

theorem JournalLine.body_alone (line : JournalLine) :
    Text.splitLines line.body = [line.body] ∧ Torn line.body ∧
      (replay line.body).outcome = .ok (Replay.apply Index.empty line).outcome := by
  have filled : line.body ≠ [] := by
    intro empty
    have held := line.read_body
    rw [empty, read_nil] at held
    cases held
  have alone := Text.split_lines_open line.newline_not_mem_body filled
  refine ⟨alone, ?_, ?_⟩
  · rw [Torn, Text.open_line_of_whole line.newline_not_mem_body, line.read_body]
    simp
  · rw [replay, alone]
    simp only [Replay.lines, line.read_body]

/-- One record is deleted, and the pipeline is drained. -/
def oneDeletion : List Move :=
  brings ⟨"u1", [⟨"a"⟩]⟩ ++ takes 0 ++
    [.finish 0 .applied, .close .drain, .takeOver 0, .look 0, .listen 0, .leave 0, .join 0,
      .queueUp 0, .discard 0]

/-- The log of the drained store is refused. -/
theorem open_record_is_lost_by_drain :
    ∃ journal, (Journal.ofLog "links.json" Journal.openRecord).outcome = .ok journal ∧
      ∃ desk events, Drained ⟨1, 4⟩ (.journal "links.json" journal) oneDeletion desk events ∧
        ∃ after, desk.backend = .journal "links.json" after ∧
          (Journal.ofLog "links.json" after.log).outcome =
            .error (.invalidData "log line 1: trailing characters") := by
  let ledger : Ledger := ⟨[⟨⟨"a"⟩, "http://a", "u1", false⟩]⟩
  let journal : Journal := ⟨Journal.openRecord, ledger.index⟩
  obtain ⟨alone, torn, replayed⟩ := (JournalLine.live ⟨"a"⟩ "http://a" "u1").body_alone
  have opened : (Journal.ofLog "links.json" Journal.openRecord).outcome = .ok journal := by
    rw [Journal.ofLog_outcome, Journal.openRecord, replayed]
    rfl
  have holds : (Backend.journal "links.json" journal).Holds ledger :=
    ⟨rfl, by decide, by decide⟩
  obtain ⟨desk, events, drained, spared⟩ : ∃ desk events,
      Drained ⟨1, 4⟩ (.journal "links.json" journal) oneDeletion desk events ∧
        Deletion.spared events = [⟨"u1", [⟨"a"⟩]⟩] :=
    ⟨_, _, ⟨by simp [oneDeletion, brings, takes, Move.OnlyDrains], ⟨0, by decide, by decide⟩, rfl, rfl⟩,
      rfl⟩
  obtain ⟨after, reached, lost⟩ :=
    (drained.buries holds).replayed "links.json" journal rfl replayed
  have changed : ledger.tombstoned (Deletion.spared events) ≠ ledger := by
    rw [spared]
    decide
  rw [if_pos ⟨torn, changed⟩] at lost
  refine ⟨journal, opened, desk, events, drained, after, reached, ?_⟩
  have count : (Text.splitLines journal.log).length = 1 := congrArg List.length alone
  rw [count] at lost
  rw [Journal.ofLog_outcome]
  exact congrArg (Except.map _) lost

end ShortLinks
