import ShortLinks.CommandLine.Office
import ShortLinks.Proofs.DrainOutcome
import ShortLinks.Proofs.PipelineQuiet

/-!
# An office and its ledger

What an office answers depends on the ledger that its store holds, on the batch policy, on the
base URL and on the codes that are drawn, and on nothing else. So two offices that agree on
these answer a command alike, and agree again afterwards.
-/

namespace ShortLinks

set_option autoImplicit false

/-- The call leaves the connections open and does not find them busy. -/
def StoreCall.Ordinary {α : Type} : StoreCall α → Prop
  | .shutdown => False
  | .probe _ busy => busy = false
  | _ => True

/-- All calls of the dialogue are ordinary, whatever the answers. -/
def Dialogue.Ordinary {α : Type} : Dialogue α → Prop
  | .done _ => True
  | .ask call next => call.Ordinary ∧ ∀ answer, (next answer).Ordinary

namespace Backend

variable {backend : Backend} {ledger : Ledger}

theorem perform_ordinary {α : Type} (holds : backend.Holds ledger) {call : StoreCall α}
    (ordinary : call.Ordinary) :
    (backend.perform .roomy call).answer = (ledger.perform backend.batchPolicy call).1 ∧
      (backend.perform .roomy call).backend.Holds (ledger.perform backend.batchPolicy call).2 := by
  by_cases records : (Ask.mk call).aboutRecords = true
  · exact holds_perform holds call records
  · cases call with
    | shutdown => cases ordinary
    | probe deadline busy =>
      have free : busy = false := ordinary
      subst free
      have keeps := holds.keeps
      cases backend with
      | memory | journal => exact ⟨rfl, holds⟩
      | database database =>
        have same : database = ledger.database := keeps
        subst same
        exact ⟨rfl, holds⟩
    | _ => exact absurd rfl records

/-- The property survives every call on a roomy disk. -/
def Lasting (kept : Backend → Prop) : Prop :=
  ∀ {α : Type} (backend : Backend) (call : StoreCall α), kept backend →
    kept (backend.perform .roomy call).backend

end Backend

namespace Ledger

/-- The answer to a dialogue, and the ledger behind it. -/
def converse {α : Type} (policy : BatchPolicy) (dialogue : Dialogue α) (ledger : Ledger) :
    α × Ledger :=
  dialogue.run (fun call current => current.perform policy call) ledger

end Ledger

namespace CommandLine

/-- What never changes of what the answers of an office depend on. -/
structure Terms where
  policy : BatchPolicy
  baseUrl : String

/-- What changes of it from command to command. -/
structure View where
  ledger : Ledger
  codes : CodeSupply

/-- The command asks the store itself, and leaves nothing to the pipeline. -/
def Command.Direct (command : Command) : Prop := ∀ codes, command ≠ .delete codes

theorem Command.direct_or_deletes (command : Command) :
    command.Direct ∨ ∃ codes, command = .delete codes := by
  by_cases deletes : ∃ codes, command = .delete codes
  · exact .inr deletes
  · left
    intro codes same
    exact deletes ⟨codes, same⟩

namespace Office

theorem run_lasting {α : Type} {kept : Backend → Prop} (lasting : Backend.Lasting kept)
    (dialogue : Dialogue α) {store : Store} (held : kept store.backend) :
    kept (dialogue.run answerCall store).2.backend ∧
      (dialogue.run answerCall store).2.home = store.home := by
  induction dialogue generalizing store with
  | done answer => exact ⟨held, rfl⟩
  | ask call next induction => exact induction _ (lasting store.backend call held)

theorem run_holds {α : Type} {dialogue : Dialogue α} (ordinary : dialogue.Ordinary)
    {store : Store} {ledger : Ledger} (holds : store.backend.Holds ledger) :
    (dialogue.run answerCall store).1 =
        (ledger.converse store.backend.batchPolicy dialogue).1 ∧
      (dialogue.run answerCall store).2.backend.Holds
        (ledger.converse store.backend.batchPolicy dialogue).2 ∧
      (dialogue.run answerCall store).2.backend.batchPolicy = store.backend.batchPolicy := by
  induction dialogue generalizing store ledger with
  | done answer => exact ⟨rfl, holds, rfl⟩
  | ask call next induction =>
    rcases Backend.perform_ordinary holds ordinary.1 with ⟨answered, held⟩
    have policy : (answerCall call store).2.backend.batchPolicy = store.backend.batchPolicy :=
      Backend.perform_policy .roomy store.backend call
    have kept : (answerCall call store).2.backend.Holds
        (ledger.perform store.backend.batchPolicy call).2 := held
    have later := induction (answerCall call store).1 (ordinary.2 _) kept
    rw [policy] at later
    have both : ledger.converse store.backend.batchPolicy (.ask call next) =
        (ledger.perform store.backend.batchPolicy call).2.converse store.backend.batchPolicy
          (next (answerCall call store).1) := by
      rw [show (answerCall call store).1 = _ from answered]
      rfl
    rw [both]
    exact later

variable {office : Office} {terms : Terms} {view : View}

structure Shows (office : Office) (terms : Terms) (view : View) : Prop where
  holds : office.store.backend.Holds view.ledger
  policy : office.store.backend.batchPolicy = terms.policy
  baseUrl : office.shortener.baseUrl = terms.baseUrl
  codes : office.shortener.codes = view.codes

/-- Whatever else is different between offices with the view, the request has the one answer and
leaves the other view. -/
def Settles {α : Type} (terms : Terms) (act : Office → α × Office) (view : View) (answer : α)
    (next : View) : Prop :=
  ∀ office : Office, office.Shows terms view →
    (act office).1 = answer ∧ (act office).2.Shows terms next

theorem Settles.rendered {α β : Type} {act : Office → α × Office} {next : View} {answer : α}
    (settles : Settles terms act view answer next) (render : α → β) :
    Settles terms (fun office => (render (act office).1, (act office).2)) view (render answer)
      next := by
  intro office shows
  rcases settles office shows with ⟨answered, later⟩
  exact ⟨congrArg render answered, later⟩

theorem inquire_shows {α : Type} (shows : office.Shows terms view) {inquiry : Inquiry α}
    (ordinary : inquiry.Ordinary) :
    (office.inquire inquiry).1 = (view.ledger.converse terms.policy inquiry).1 ∧
      (office.inquire inquiry).2.Shows terms
        { view with ledger := (view.ledger.converse terms.policy inquiry).2 } := by
  rcases run_holds ordinary shows.holds with ⟨answered, held, policy⟩
  rw [shows.policy] at answered held policy
  exact ⟨answered, held, policy, shows.baseUrl, shows.codes⟩

theorem inquire_settles {α : Type} {inquiry : Inquiry α} (ordinary : inquiry.Ordinary)
    (terms : Terms) (view : View) :
    ∃ answer next, Settles terms (fun office => office.inquire inquiry) view answer next := by
  let reached := view.ledger.converse terms.policy inquiry
  refine ⟨reached.1, { view with ledger := reached.2 }, ?_⟩
  intro office shows
  exact inquire_shows shows ordinary

theorem ofCall_ordinary {α β : Type} (call : StoreCall α) (ordinary : call.Ordinary)
    (read : α → β) : (Inquiry.ofCall call read).Ordinary := ⟨ordinary, fun _ => trivial⟩

theorem shorten_ordinary (baseUrl : String) (code : ShortCode) (url owner : String) :
    (Inquiry.shorten baseUrl code url owner).Ordinary := by
  refine ⟨trivial, ?_⟩
  intro answer
  cases answer with
  | ok done => trivial
  | error cause =>
    cases cause with
    | conflict taken =>
      refine ⟨trivial, ?_⟩
      intro found
      cases found with
      | error failed => trivial
      | ok known => cases known <;> trivial
    | _ => trivial

theorem shortenBatch_ordinary (baseUrl : String) (codes : List ShortCode)
    (items : List BatchItem) (owner : String) :
    (Inquiry.shortenBatch baseUrl codes items owner).Ordinary := by
  cases items with
  | nil => trivial
  | cons item items =>
    exact ⟨trivial, fun _ => trivial⟩

/-- What a direct command leads to is settled by the view alone. -/
theorem obey_settles (terms : Terms) (view : View) (user : String) {command : Command}
    (direct : command.Direct) :
    ∃ outcome next, Settles terms (fun office => office.obey user command) view outcome next := by
  cases command with
  | delete codes => exact absurd rfl (direct codes)
  | shorten url =>
    rcases inquire_settles (shorten_ordinary terms.baseUrl view.codes.draw.1 url user)
      terms { view with codes := view.codes.draw.2 } with ⟨answer, next, settles⟩
    refine ⟨answered answer fun outcome => told outcome.link, next, ?_⟩
    intro office shows
    have drawn := settles { office with shortener := (office.shortener.shorten url user).2 }
      ⟨shows.holds, shows.policy, shows.baseUrl, by rw [← shows.codes]; rfl⟩
    simp only [obey, Shortener.shorten, shows.codes, shows.baseUrl] at drawn ⊢
    rw [← drawn.1]
    exact ⟨rfl, drawn.2⟩
  | batch urls =>
    let drawn := view.codes.drawMany (batchItems urls).length
    rcases inquire_settles (shortenBatch_ordinary terms.baseUrl drawn.1 (batchItems urls) user)
      terms { view with codes := drawn.2 } with ⟨answer, next, settles⟩
    refine ⟨answered answer fun links => listed (links.map BatchLink.members), next, ?_⟩
    intro office shows
    have behind := settles
      { office with shortener := (office.shortener.shortenBatch (batchItems urls) user).2 }
      ⟨shows.holds, shows.policy, shows.baseUrl,
        congrArg (fun codes => (codes.drawMany (batchItems urls).length).2) shows.codes⟩
    simp only [obey, Shortener.shortenBatch, shows.codes, shows.baseUrl] at behind ⊢
    rw [← behind.1]
    exact ⟨rfl, behind.2⟩
  | resolve code =>
    have ordinary : (Inquiry.resolve code).Ordinary := ofCall_ordinary (.get code) trivial id
    rcases inquire_settles ordinary terms view with ⟨answer, next, settles⟩
    exact ⟨_, next, settles.rendered (resolved code)⟩
  | list =>
    have ordinary : (Inquiry.userUrls terms.baseUrl user).Ordinary :=
      ofCall_ordinary (.listByOwner user) trivial _
    rcases inquire_settles ordinary terms view with ⟨answer, next, settles⟩
    let render (answer : Except ServiceError (List OwnedLink)) : Except Failure String :=
      answered answer fun links => listed (links.map OwnedLink.members)
    refine ⟨render answer, next, ?_⟩
    intro office shows
    simp only [obey, shows.baseUrl]
    exact settles.rendered render office shows
  | ping =>
    -- Where no connection is busy the time that a probe may take does not matter.
    refine ⟨.ok (told "ok"), view, ?_⟩
    intro office shows
    have ordinary : (Inquiry.ping office.shortener.healthTimeout false).Ordinary :=
      ofCall_ordinary (.probe office.shortener.healthTimeout false) rfl id
    rcases inquire_shows shows ordinary with ⟨alive, later⟩
    refine ⟨?_, later⟩
    simp only [obey, alive]
    rfl
  | stats =>
    have ordinary : Inquiry.stats.Ordinary := ofCall_ordinary .stats trivial id
    rcases inquire_settles ordinary terms view with ⟨answer, next, settles⟩
    exact ⟨_, next, settles.rendered fun stats =>
      answered stats fun stats => told (String.ofList (Json.layOutMembers 0 stats.members))⟩

theorem pipeline_direct (office : Office) (user : String) {command : Command}
    (direct : command.Direct) : (office.obey user command).2.pipeline = office.pipeline := by
  cases command with
  | delete codes => exact absurd rfl (direct codes)
  | _ => rfl

theorem obey_asks (office : Office) (user : String) {command : Command}
    (direct : command.Direct) :
    ∃ (α : Type) (inquiry : Inquiry α),
      (office.obey user command).2.store = (inquiry.run answerCall office.store).2 := by
  cases command with
  | delete codes => exact absurd rfl (direct codes)
  | shorten url => exact ⟨_, (office.shortener.shorten url user).1, rfl⟩
  | batch urls => exact ⟨_, (office.shortener.shortenBatch (batchItems urls) user).1, rfl⟩
  | resolve code => exact ⟨_, .resolve code, rfl⟩
  | list => exact ⟨_, .userUrls office.shortener.baseUrl user, rfl⟩
  | ping => exact ⟨_, .ping office.shortener.healthTimeout false, rfl⟩
  | stats => exact ⟨_, .stats, rfl⟩

theorem obey_lasting {kept : Backend → Prop} (lasting : Backend.Lasting kept)
    (held : kept office.store.backend) (user : String) {command : Command}
    (direct : command.Direct) :
    kept (office.obey user command).2.store.backend ∧
      (office.obey user command).2.store.home = office.store.home := by
  rcases obey_asks office user direct with ⟨α, inquiry, reached⟩
  rw [reached]
  exact run_lasting lasting inquiry held

theorem applyRequest_store (request : Deletion.Request) (store : Store) :
    (applyRequest request store).2 =
      (answerCall (.markDeleted request.codes request.owner) store).2 := by
  unfold applyRequest
  split <;> rename_i answered <;> rw [answered]

theorem applyRequest_never (request : Deletion.Request) (store : Store) :
    (applyRequest request store).1 ≠ .panicked := by
  unfold applyRequest
  split <;> simp

/-- The store behind a deletion that was brought alone. A request without codes is never applied,
and would change nothing. -/
theorem effect_holds {store : Store} {ledger : Ledger} (holds : store.backend.Holds ledger)
    (entry : Deletion.Entry) :
    let reached := Deletion.Pipeline.effect applyRequest ([entry].filter Deletion.Entry.filled) store
    reached.backend.Holds (ledger.markDeleted entry.request.codes entry.request.owner) ∧
      reached.backend.batchPolicy = store.backend.batchPolicy := by
  cases filled : entry.filled with
  | true =>
    rw [List.filter_cons_of_pos filled]
    simp only [Deletion.Pipeline.effect, List.filter_nil, List.foldl_cons, List.foldl_nil,
      applyRequest_store]
    let buries : StoreCall Unit := .markDeleted entry.request.codes entry.request.owner
    exact ⟨(Backend.holds_perform holds buries rfl).2,
      Backend.perform_policy .roomy store.backend buries⟩
  | false =>
    have empty : entry.request.codes = [] := by
      by_contra codes
      rw [Deletion.Pipeline.filled_iff.2 codes] at filled
      cases filled
    rw [List.filter_cons_of_neg (by simp [filled]), empty, Ledger.markDeleted_nil]
    exact ⟨holds, rfl⟩

theorem effect_lasting {kept : Backend → Prop} (lasting : Backend.Lasting kept)
    (entries : List Deletion.Entry) {store : Store} (held : kept store.backend) :
    kept (Deletion.Pipeline.effect applyRequest entries store).backend ∧
      (Deletion.Pipeline.effect applyRequest entries store).home = store.home := by
  induction entries generalizing store with
  | nil => exact ⟨held, rfl⟩
  | cons entry entries induction =>
    have stepped : kept (applyRequest entry.request store).2.backend := by
      rw [applyRequest_store]
      exact lasting store.backend _ held
    rcases induction stepped with ⟨last, home⟩
    refine ⟨last, home.trans ?_⟩
    rw [applyRequest_store]
    rfl

end Office

end CommandLine

end ShortLinks
