import ShortLinks.Proofs.Desk
import ShortLinks.Service
import Mathlib.Data.List.Perm.Basic

/-!
# Many clients at once

Clients of one service, each in a dialogue with the store, and the workers of its pipeline. They
take their steps in any order, so anything may happen between two calls of one dialogue. Codes may
repeat. Whatever comes between, a URL has one code from the moment it is stored, so all links
given for it agree and only one answer reports it as new.
-/

namespace ShortLinks

set_option autoImplicit false

open Deletion (Event Move Pipeline)

/-- What the service has answered, beside what it was asked. -/
inductive Receipt
  | shortened (url : String) (outcome : Except ServiceError Shortened)
  | batched (items : List BatchItem) (outcome : Except ServiceError (List BatchLink))
  | resolved (code : ShortCode) (outcome : Except ServiceError (Option String))

namespace Receipt

def created : Receipt → List String
  | shortened url (.ok (.created _)) => [url]
  | batched items (.ok _) => items.map BatchItem.url
  | _ => []

def links : Receipt → List (String × String)
  | shortened url (.ok outcome) => [(url, outcome.link)]
  | batched items (.ok given) =>
      items.zipWith (fun item answer => (item.url, answer.link)) given
  | _ => []

end Receipt

namespace Dialogue

def map {α β : Type} (read : α → β) : Dialogue α → Dialogue β
  | done answer => done (read answer)
  | ask call next => ask call fun reply => (next reply).map read

/-- The URLs that a finished dialogue is about to report as new. -/
def created : Dialogue Receipt → List String
  | done receipt => receipt.created
  | ask _ _ => []

end Dialogue

/-- A service with its clients. -/
structure Traffic where
  baseUrl : String
  desk : Desk
  talks : List (Dialogue Receipt)

namespace Traffic

/-- A client begins a dialogue with the codes that were drawn for it, or goes on with it by one
call; or the pipeline moves, where asking for a deletion is a move too. -/
inductive Step
  | shorten (code : ShortCode) (url owner : String)
  | shortenBatch (drawn : List (ShortCode × BatchItem)) (owner : String)
  | resolve (code : ShortCode)
  | advance (client : Nat)
  | deletion (move : Move)

def start (baseUrl : String) (settings : DeletionSettings) (backend : Backend) : Traffic :=
  ⟨baseUrl, ⟨Pipeline.start settings, backend⟩, []⟩

def begin (traffic : Traffic) (talk : Dialogue Receipt) : Traffic :=
  { traffic with talks := traffic.talks ++ [talk] }

def goOn (traffic : Traffic) (client : Nat) (backend : Backend) (rest : Dialogue Receipt) :
    Traffic :=
  { traffic with
    desk := { traffic.desk with backend }
    talks := traffic.talks.set client rest }

def advance? (traffic : Traffic) (client : Nat) : Option (Traffic × List Receipt) :=
  match traffic.talks[client]? with
  | none => none
  | some (.done receipt) =>
      some ({ traffic with talks := traffic.talks.eraseIdx client }, [receipt])
  | some (.ask call next) =>
      let answered := traffic.desk.backend.perform .roomy call
      some (traffic.goOn client answered.backend (next answered.answer), [])

def step? (traffic : Traffic) : Step → Option (Traffic × List Receipt)
  | .shorten code url owner =>
      some (traffic.begin
        ((Inquiry.shorten traffic.baseUrl code url owner).map (.shortened url)), [])
  | .shortenBatch drawn owner =>
      let items := drawn.map Prod.snd
      some (traffic.begin
        ((Inquiry.shortenBatch traffic.baseUrl (drawn.map Prod.fst) items owner).map
          (.batched items)), [])
  | .resolve code => some (traffic.begin ((Inquiry.resolve code).map (.resolved code)), [])
  | .advance client => traffic.advance? client
  | .deletion move =>
      (traffic.desk.move? move).map fun (desk, _) => ({ traffic with desk }, [])

def run? (steps : List Step) (traffic : Traffic) : Option (Traffic × List Receipt) :=
  takeAll? step? steps traffic

end Traffic

/-- The answer is no contradiction, and its links are those of the stored codes. -/
structure Receipt.Sound (baseUrl : String) (ledger : Ledger) (receipt : Receipt) : Prop where
  consistent : ∀ url wrong, receipt ≠ .shortened url (.error (.inconsistent wrong))
  stored : ∀ given ∈ receipt.links,
    ∃ code, ledger.findUrl given.1 = some code ∧ given.2 = code.linkUnder baseUrl

/-- The URLs differ, and the call that led from one ledger to the other has stored them. -/
structure StoredBetween (before after : Ledger) (urls : List String) : Prop where
  once : urls.Nodup
  free : ∀ url ∈ urls, url ∉ before.urls
  stored : ∀ url ∈ urls, url ∈ after.urls

/-- Whatever the others do meanwhile, the dialogue comes to a sound answer, and what it reports as
new it has stored itself. -/
def Dialogue.Safe (baseUrl : String) : Dialogue Receipt → Ledger → Prop
  | .done receipt, ledger => receipt.Sound baseUrl ledger
  | .ask call next, ledger =>
      (Ask.mk call).aboutRecords = true ∧
        ∀ (now : Ledger) (policy : BatchPolicy), ledger.Grows now → now.Distinct →
          (next (now.perform policy call).1).Safe baseUrl (now.perform policy call).2 ∧
            StoredBetween now (now.perform policy call).2 (next (now.perform policy call).1).created

variable {baseUrl : String} {ledger before after : Ledger}

theorem stored_between_nil : StoredBetween before after [] := by
  constructor <;> simp

theorem sound_grows {receipt : Receipt} (sound : receipt.Sound baseUrl before)
    (grows : before.Grows after) : receipt.Sound baseUrl after := by
  refine ⟨sound.consistent, ?_⟩
  intro given member
  rcases sound.stored given member with ⟨code, found, same⟩
  exact ⟨code, Ledger.find_url_grows grows found, same⟩

theorem safe_grows {talk : Dialogue Receipt} (safe : talk.Safe baseUrl before)
    (grows : before.Grows after) : talk.Safe baseUrl after := by
  cases talk with
  | done receipt => exact sound_grows safe grows
  | ask call next =>
    exact ⟨safe.1, fun now policy later => safe.2 now policy (Ledger.grows_trans grows later)⟩

/-- An answer without links is sound if it reports no contradiction. -/
theorem sound_linkless {receipt : Receipt}
    (consistent : ∀ url wrong, receipt ≠ .shortened url (.error (.inconsistent wrong)))
    (nothing : receipt.links = []) : receipt.Sound baseUrl ledger := by
  refine ⟨consistent, ?_⟩
  intro given member
  rw [nothing] at member
  cases member

theorem sound_failed (url : String) (cause : StorageError) :
    (Receipt.shortened url (.error (.ofStorage cause))).Sound baseUrl ledger := by
  refine sound_linkless ?_ rfl
  intro other wrong same
  cases cause <;> cases same

theorem sound_link {url : String} {code : ShortCode} {outcome : Shortened}
    (found : ledger.findUrl url = some code) (link : outcome.link = code.linkUnder baseUrl) :
    (Receipt.shortened url (.ok outcome)).Sound baseUrl ledger := by
  constructor
  · intro other wrong same
    cases same
  · intro given member
    obtain rfl := List.mem_singleton.1 member
    exact ⟨code, found, link⟩

theorem safe_lookup {url : String} (known : url ∈ ledger.urls)
    {next : Except StorageError (Option ShortCode) → Dialogue Receipt}
    (answers : ∀ code, next (.ok (some code)) =
      .done (.shortened url (.ok (.existing (code.linkUnder baseUrl))))) :
    (Dialogue.ask (.findUrl url) next).Safe baseUrl ledger := by
  refine ⟨rfl, ?_⟩
  intro now policy grows distinct
  rcases Ledger.find_url_of_mem_urls distinct (Ledger.urls_grow grows known) with ⟨code, found⟩
  simp only [Ledger.perform, found, answers]
  exact ⟨sound_link found rfl, stored_between_nil⟩

theorem safe_shorten (code : ShortCode) (url owner : String) (ledger : Ledger) :
    ((Inquiry.shorten baseUrl code url owner).map (.shortened url)).Safe baseUrl ledger := by
  refine ⟨rfl, ?_⟩
  intro now policy grows distinct
  rcases Ledger.put_cases now code url owner with ⟨error, refused, reason⟩ | ⟨free, stored⟩
  · simp only [Ledger.perform, refused]
    rcases reason with ⟨rfl, known⟩ | rfl
    · exact ⟨safe_lookup known fun _ => rfl, stored_between_nil⟩
    · exact ⟨sound_failed url (.codeCollision code.text), stored_between_nil⟩
  · have found := Ledger.find_url_extend distinct free owner
    simp only [Ledger.perform, stored]
    refine ⟨sound_link found rfl, List.nodup_singleton url, ?_, ?_⟩
    · intro other member
      obtain rfl := List.mem_singleton.1 member
      exact ((Ledger.refusal_none_iff now code other).1 free).1
    · intro other member
      obtain rfl := List.mem_singleton.1 member
      exact Ledger.mem_urls_of_find_url found

theorem zipWith_of_maps {α β γ δ : Type} (make : β → γ → δ) (first : α → β) (second : α → γ)
    (values : List α) :
    (values.map first).zipWith make (values.map second) =
      values.map fun value => make (first value) (second value) := by
  rw [List.zipWith_map, List.zipWith_self]

def drawnEntry (pair : ShortCode × BatchItem) : BatchEntry := ⟨pair.1, pair.2.url⟩

def drawnLink (baseUrl : String) (pair : ShortCode × BatchItem) : BatchLink :=
  ⟨pair.2.correlation, pair.1.linkUnder baseUrl⟩

theorem sound_batch {drawn : List (ShortCode × BatchItem)}
    (found : ∀ entry ∈ drawn.map drawnEntry, ledger.findUrl entry.url = some entry.code) :
    (Receipt.batched (drawn.map Prod.snd) (.ok (drawn.map (drawnLink baseUrl)))).Sound
      baseUrl ledger := by
  constructor
  · intro other wrong same
    cases same
  · intro given member
    rw [Receipt.links, zipWith_of_maps] at member
    rcases List.mem_map.1 member with ⟨pair, held, rfl⟩
    exact ⟨pair.1, found (drawnEntry pair) (List.mem_map_of_mem held), rfl⟩

theorem sound_refused (items : List BatchItem) (cause : ServiceError) :
    (Receipt.batched items (.error cause)).Sound baseUrl ledger := by
  refine sound_linkless ?_ rfl
  intro other wrong same
  cases same

theorem batch_drawn {drawn : List (ShortCode × BatchItem)} (filled : drawn ≠ [])
    (owner : String) :
    Inquiry.shortenBatch baseUrl (drawn.map Prod.fst) (drawn.map Prod.snd) owner =
      Inquiry.ofCall (.putBatch (drawn.map drawnEntry) owner)
        fun _ => drawn.map (drawnLink baseUrl) := by
  have entries : (drawn.map Prod.fst).zipWith (fun code item => BatchEntry.mk code item.url)
      (drawn.map Prod.snd) = drawn.map drawnEntry := zipWith_of_maps _ _ _ _
  have links : (drawn.map Prod.fst).zipWith
      (fun code item => BatchLink.mk item.correlation (code.linkUnder baseUrl))
      (drawn.map Prod.snd) = drawn.map (drawnLink baseUrl) := zipWith_of_maps _ _ _ _
  cases drawn with
  | nil => exact absurd rfl filled
  | cons pair drawn =>
    rw [← entries, ← links]
    rfl

theorem stored_between_batch (distinct : before.Distinct) {policy : BatchPolicy}
    {entries : List BatchEntry} {owner : String}
    (stored : before.putBatch policy entries owner = (.ok (), after)) :
    StoredBetween before after (entries.map BatchEntry.url) := by
  rcases Ledger.putBatch_fresh distinct stored with ⟨once, free, found⟩
  refine ⟨once, ?_, ?_⟩
  · intro url member
    rcases List.mem_map.1 member with ⟨entry, held, rfl⟩
    exact free entry held
  · intro url member
    rcases List.mem_map.1 member with ⟨entry, held, rfl⟩
    exact Ledger.mem_urls_of_find_url (found entry held)

theorem safe_shortenBatch (drawn : List (ShortCode × BatchItem)) (owner : String)
    (ledger : Ledger) :
    ((Inquiry.shortenBatch baseUrl (drawn.map Prod.fst) (drawn.map Prod.snd) owner).map
      (.batched (drawn.map Prod.snd))).Safe baseUrl ledger := by
  by_cases empty : drawn = []
  · subst empty
    exact sound_batch (by simp)
  · rw [batch_drawn empty]
    refine ⟨rfl, ?_⟩
    intro now policy grows distinct
    cases stored : now.putBatch policy (drawn.map drawnEntry) owner with
    | mk answer next =>
      simp only [Ledger.perform, stored]
      cases answer with
      | error cause => exact ⟨sound_refused _ _, stored_between_nil⟩
      | ok done =>
        rcases Ledger.putBatch_fresh distinct stored with ⟨_, _, found⟩
        have same : (drawn.map drawnEntry).map BatchEntry.url =
            (drawn.map Prod.snd).map BatchItem.url := by
          rw [List.map_map, List.map_map]
          rfl
        have made := stored_between_batch distinct stored
        rw [same] at made
        exact ⟨sound_batch found, made⟩

theorem safe_resolve (code : ShortCode) (ledger : Ledger) :
    ((Inquiry.resolve code).map (.resolved code)).Safe baseUrl ledger := by
  refine ⟨rfl, ?_⟩
  intro now policy grows distinct
  refine ⟨sound_linkless ?_ rfl, stored_between_nil⟩
  intro other wrong same
  cases same

theorem link_under_inj {first second : ShortCode} :
    first.linkUnder baseUrl = second.linkUnder baseUrl ↔ first = second := by
  constructor
  · intro same
    have texts := List.append_cancel_left (String.ofList_injective same)
    have equal : first.text = second.text := String.toList_injective (List.cons.inj texts).2
    cases first
    cases second
    exact congrArg ShortCode.mk equal
  · rintro rfl
    rfl

namespace Traffic

/-- What the clients report as new, or are about to. -/
def creations (receipts : List Receipt) (talks : List (Dialogue Receipt)) : List String :=
  receipts.flatMap Receipt.created ++ talks.flatMap Dialogue.created

/-- The store holds a ledger by which all answers are sound and all clients will come to sound
ones, and no URL is reported as new twice. -/
structure Settled (traffic : Traffic) (receipts : List Receipt) (ledger : Ledger) : Prop where
  holds : traffic.desk.backend.Holds ledger
  safe : ∀ talk ∈ traffic.talks, talk.Safe traffic.baseUrl ledger
  sound : ∀ receipt ∈ receipts, receipt.Sound traffic.baseUrl ledger
  once : (creations receipts traffic.talks).Nodup
  known : ∀ url ∈ creations receipts traffic.talks, url ∈ ledger.urls

variable {traffic next : Traffic} {past receipts : List Receipt}

theorem settled_start {backend : Backend} (newborn : backend.Newborn) (baseUrl : String)
    (settings : DeletionSettings) :
    (start baseUrl settings backend).Settled [] Ledger.empty := by
  refine ⟨Backend.newborn_holds newborn, ?_, ?_, ?_, ?_⟩ <;> simp [start, creations]

theorem settled_stored (settled : traffic.Settled past ledger) {desk : Desk}
    (holds : desk.backend.Holds after) (grows : ledger.Grows after) :
    ({ traffic with desk } : Traffic).Settled past after where
  holds := holds
  safe := fun talk member => safe_grows (settled.safe talk member) grows
  sound := fun receipt member => sound_grows (settled.sound receipt member) grows
  once := settled.once
  known := fun url member => Ledger.urls_grow grows (settled.known url member)

theorem settled_begin (settled : traffic.Settled past ledger) {talk : Dialogue Receipt}
    (safe : talk.Safe traffic.baseUrl ledger) (nothing : talk.created = []) :
    (traffic.begin talk).Settled past ledger := by
  have same : creations past (traffic.begin talk).talks = creations past traffic.talks := by
    simp [creations, begin, nothing]
  refine ⟨settled.holds, ?_, settled.sound, ?_, ?_⟩
  · intro other member
    rcases List.mem_append.1 member with earlier | new
    · exact settled.safe other earlier
    · obtain rfl := List.mem_singleton.1 new
      exact safe
  · rw [same]
    exact settled.once
  · rw [same]
    exact settled.known

theorem creations_erase (past : List Receipt) {client : Nat} {receipt : Receipt}
    {talks : List (Dialogue Receipt)} (held : talks[client]? = some (.done receipt)) :
    (creations (past ++ [receipt]) (talks.eraseIdx client)).Perm (creations past talks) := by
  rcases List.getElem?_eq_some_iff.1 held with ⟨inside, same⟩
  have moved := (List.getElem_cons_eraseIdx_perm inside).flatMap_right Dialogue.created
  rw [same, List.flatMap_cons] at moved
  unfold creations
  rw [List.flatMap_append, List.flatMap_singleton, List.append_assoc]
  exact moved.append_left _

theorem creations_set (past : List Receipt) {β : Type} {client : Nat} {call : StoreCall β}
    {next : Except StorageError β → Dialogue Receipt} {talks : List (Dialogue Receipt)}
    (held : talks[client]? = some (.ask call next)) (talk : Dialogue Receipt) :
    (creations past (talks.set client talk)).Perm (talk.created ++ creations past talks) := by
  rcases List.getElem?_eq_some_iff.1 held with ⟨inside, same⟩
  have old := (List.getElem_cons_eraseIdx_perm inside).flatMap_right Dialogue.created
  have new := (List.set_perm_cons_eraseIdx inside talk).flatMap_right Dialogue.created
  rw [same, List.flatMap_cons] at old
  rw [List.flatMap_cons] at new
  have behind : (talks.set client talk).flatMap Dialogue.created |>.Perm
      (talk.created ++ talks.flatMap Dialogue.created) :=
    new.trans (old.append_left talk.created)
  unfold creations
  refine (behind.append_left _).trans ?_
  rw [← List.append_assoc, ← List.append_assoc]
  exact List.perm_append_comm.append_right _

theorem settled_answer {client : Nat} {receipt : Receipt}
    (settled : traffic.Settled past ledger)
    (held : traffic.talks[client]? = some (.done receipt)) :
    ({ traffic with talks := traffic.talks.eraseIdx client } : Traffic).Settled
      (past ++ [receipt]) ledger := by
  have same := creations_erase past held
  refine ⟨settled.holds, ?_, ?_, ?_, ?_⟩
  · intro talk member
    exact settled.safe talk (List.mem_of_mem_eraseIdx member)
  · intro other member
    rcases List.mem_append.1 member with earlier | new
    · exact settled.sound other earlier
    · obtain rfl := List.mem_singleton.1 new
      exact settled.safe _ (List.mem_of_getElem? held)
  · exact same.nodup_iff.2 settled.once
  · intro url member
    exact settled.known url (same.mem_iff.1 member)

theorem settled_call {β : Type} {client : Nat} {call : StoreCall β}
    {rest : Except StorageError β → Dialogue Receipt} (settled : traffic.Settled past ledger)
    (held : traffic.talks[client]? = some (.ask call rest)) :
    ∃ after, (traffic.goOn client (traffic.desk.backend.perform .roomy call).backend
      (rest (traffic.desk.backend.perform .roomy call).answer)).Settled past after := by
  have safe := settled.safe _ (List.mem_of_getElem? held)
  rcases Backend.holds_perform settled.holds call safe.1 with ⟨answered, holds⟩
  rcases safe.2 ledger traffic.desk.backend.batchPolicy (Ledger.grows_refl ledger)
    settled.holds.distinct with ⟨goesOn, made⟩
  rw [← answered] at goesOn made
  have grows := ledger.perform_grows traffic.desk.backend.batchPolicy call
  have same := creations_set past held
    (rest (traffic.desk.backend.perform .roomy call).answer)
  refine ⟨_, holds, ?_, ?_, ?_, ?_⟩
  · intro talk member
    rcases List.mem_or_eq_of_mem_set member with earlier | rfl
    · exact safe_grows (settled.safe talk earlier) grows
    · exact goesOn
  · intro receipt member
    exact sound_grows (settled.sound receipt member) grows
  · apply same.nodup_iff.2
    refine List.nodup_append.2 ⟨made.once, settled.once, ?_⟩
    rintro url new _ old rfl
    exact made.free url new (settled.known url old)
  · intro url member
    rcases List.mem_append.1 (same.mem_iff.1 member) with new | old
    · exact made.stored url new
    · exact Ledger.urls_grow grows (settled.known url old)

theorem begun_batch (drawn : List (ShortCode × BatchItem)) (owner : String) :
    ((Inquiry.shortenBatch baseUrl (drawn.map Prod.fst) (drawn.map Prod.snd) owner).map
      (.batched (drawn.map Prod.snd))).created = [] := by
  cases drawn <;> rfl

theorem settled_step {step : Step} (settled : traffic.Settled past ledger)
    (stepped : traffic.step? step = some (next, receipts)) :
    ∃ after, next.Settled (past ++ receipts) after := by
  cases step with
  | shorten code url owner =>
    cases stepped
    rw [List.append_nil]
    exact ⟨ledger, settled_begin settled (safe_shorten code url owner ledger) rfl⟩
  | shortenBatch drawn owner =>
    cases stepped
    rw [List.append_nil]
    exact ⟨ledger, settled_begin settled (safe_shortenBatch drawn owner ledger)
      (begun_batch drawn owner)⟩
  | resolve code =>
    cases stepped
    rw [List.append_nil]
    exact ⟨ledger, settled_begin settled (safe_resolve code ledger) rfl⟩
  | advance client =>
    simp only [step?, advance?] at stepped
    split at stepped
    · cases stepped
    · rename_i receipt held
      cases stepped
      exact ⟨ledger, settled_answer settled held⟩
    · rename_i call rest held
      cases stepped
      rw [List.append_nil]
      exact settled_call settled held
  | deletion move =>
    rcases Option.map_eq_some_iff.1 stepped with ⟨⟨desk, events⟩, moved, same⟩
    cases same
    have reached := (Desk.move_splits moved).2
    rcases Backend.honour_holds settled.holds (Deletion.honoured events) with
      ⟨backend, honoured, holds⟩
    rw [reached] at honoured
    cases honoured
    rw [List.append_nil]
    exact ⟨_, settled_stored settled holds (Ledger.honour_grows ledger _)⟩

theorem settled_run {steps : List Step} (settled : traffic.Settled past ledger)
    (ran : run? steps traffic = some (next, receipts)) :
    ∃ after, next.Settled (past ++ receipts) after := by
  refine take_all_keeps (fun traffic past => ∃ now, traffic.Settled past now) ?_
    ⟨ledger, settled⟩ ran
  rintro traffic next past receipts step ⟨now, reached⟩ stepped
  exact settled_step reached stepped

/-- What holds of the answers so far, and of the store behind them. -/
structure OneLink (traffic : Traffic) (receipts : List Receipt) : Prop where
  consistent : ∀ url wrong, .shortened url (.error (.inconsistent wrong)) ∉ receipts
  once : (receipts.flatMap Receipt.created).Nodup
  stored : ∀ given ∈ receipts.flatMap Receipt.links, ∃ code,
    (traffic.desk.backend.perform .roomy (.findUrl given.1)).answer = .ok (some code) ∧
      given.2 = code.linkUnder traffic.baseUrl
  apart : ∀ first ∈ receipts.flatMap Receipt.links, ∀ second ∈ receipts.flatMap Receipt.links,
    first.1 = second.1 ↔ first.2 = second.2

theorem one_link_of_settled (settled : traffic.Settled receipts ledger) :
    traffic.OneLink receipts := by
  have stored : ∀ given ∈ receipts.flatMap Receipt.links,
      ∃ code, ledger.findUrl given.1 = some code ∧ given.2 = code.linkUnder traffic.baseUrl := by
    intro given member
    rcases List.mem_flatMap.1 member with ⟨receipt, answered, listed⟩
    exact (settled.sound receipt answered).stored given listed
  refine ⟨?_, ?_, ?_, ?_⟩
  · intro url wrong answered
    exact (settled.sound _ answered).consistent url wrong rfl
  · exact (List.nodup_append.1 settled.once).1
  · intro given member
    rcases stored given member with ⟨code, found, link⟩
    refine ⟨code, ?_, link⟩
    rw [(Backend.holds_perform settled.holds (.findUrl given.1) rfl).1]
    exact congrArg Except.ok found
  · intro first one second other
    rcases stored first one with ⟨code, found, link⟩
    rcases stored second other with ⟨twin, known, same⟩
    rw [link, same, link_under_inj]
    constructor
    · intro equal
      rw [equal, known] at found
      exact (Option.some.inj found).symm
    · rintro rfl
      exact Ledger.url_of_code settled.holds.distinct found known

/-- However the clients and the workers take turns, a URL has one link: no answer contradicts the
store, at most one reports the URL as new, and all of them give the link of its stored code. -/
theorem one_link_per_url {baseUrl : String} {settings : DeletionSettings} {backend : Backend}
    (newborn : backend.Newborn) {steps : List Step}
    (ran : run? steps (start baseUrl settings backend) = some (traffic, receipts)) :
    traffic.OneLink receipts := by
  rcases settled_run (settled_start newborn baseUrl settings) ran with ⟨ledger, settled⟩
  exact one_link_of_settled settled

/-- Two clients want the same URL, and its record is deleted between the two calls of the second.
A batch fails at that URL, and the code comes a third time. -/
def rush : List Step :=
  [.shorten ⟨"k"⟩ "http://x" "u1", .shorten ⟨"k"⟩ "http://x" "u2", .advance 0, .advance 1,
    .deletion (.accept ⟨"u1", [⟨"k"⟩]⟩), .deletion .grant, .deletion .deliver,
    .deletion (.look 0), .deletion (.listen 0), .deletion (.take 0),
    .deletion (.finish 0 .applied),
    .shortenBatch [(⟨"m"⟩, ⟨"1", "http://y"⟩), (⟨"n"⟩, ⟨"2", "http://x"⟩)] "u3", .advance 2,
    .advance 1, .shorten ⟨"k"⟩ "http://z" "u1", .advance 3, .resolve ⟨"k"⟩, .advance 4,
    .shortenBatch [(⟨"p"⟩, ⟨"3", "http://z"⟩)] "", .advance 5, .advance 0, .advance 0, .advance 0,
    .advance 0, .advance 0, .advance 0]

theorem rush_gives_one_link :
    (Backend.memory Index.empty).Newborn ∧
      ∃ traffic receipts,
        run? rush (start "http://s/" ⟨1, 4⟩ (.memory Index.empty)) = some (traffic, receipts) ∧
          traffic.OneLink receipts ∧
          receipts.flatMap Receipt.created = ["http://x", "http://z"] ∧
          receipts.flatMap Receipt.links =
            [("http://x", "http://s/k"), ("http://x", "http://s/k"),
              ("http://z", "http://s/p")] := by
  have newborn : (Backend.memory Index.empty).Newborn := rfl
  refine ⟨newborn, _, _, rfl, ?_, rfl, rfl⟩
  exact one_link_per_url newborn
    (rfl : run? rush (start "http://s/" ⟨1, 4⟩ (.memory Index.empty)) = _)

end Traffic

end ShortLinks
