import ShortLinks.Proofs.BatchFailure
import ShortLinks.Proofs.SequenceCodes
import ShortLinks.Proofs.Traffic
import Mathlib.Algebra.Group.Nat.Defs

/-!
# A sequence never collides

Clients of a service that draws its codes from a sequence, in any order of their steps. A batch
draws code by code, and others may draw in between. Stored codes and those that clients hold are
codes of counters that have been handed out, and no two parties hold the same; a call brings no
codes into the store but its own, whether it succeeds, fails, or stops half way. So the code of a
call is never in the store before it, and only such a code collides.
-/

namespace ShortLinks

set_option autoImplicit false

namespace StoreCall

/-- The codes that a call is to store. -/
def brings {α : Type} : StoreCall α → List ShortCode
  | .put code _ _ => [code]
  | .putBatch entries _ => entries.map BatchEntry.code
  | _ => []

def shortens {α : Type} : StoreCall α → Bool
  | .put _ _ _ | .putBatch _ _ | .findUrl _ => true
  | _ => false

end StoreCall

namespace Index

theorem store_code (index : Index) (code other : ShortCode) (url owner : String) :
    (index.store code url owner).byCode.contains other =
      (decide (other = code) || index.byCode.contains other) := by
  rw [store, Keyed.contains_insert]

theorem bury_code (index : Index) (code other : ShortCode) (owner : String) :
    (index.bury code owner).byCode.contains other = index.byCode.contains other := by
  unfold bury
  split
  · exact Keyed.contains_modify _
  · rfl

theorem buryAll_code (index : Index) (codes : List ShortCode) (owner : String)
    (other : ShortCode) :
    (index.buryAll codes owner).byCode.contains other = index.byCode.contains other := by
  unfold buryAll
  induction codes generalizing index with
  | nil => rfl
  | cons code codes induction => rw [List.foldl_cons, induction, bury_code]

end Index

theorem Journal.markDeleted_code (disk : Disk) (owner : String) (codes : List ShortCode)
    (journal : Journal) (other : ShortCode) :
    (markDeleted disk owner codes journal).2.index.byCode.contains other =
      journal.index.byCode.contains other := by
  induction codes generalizing journal with
  | nil => rfl
  | cons code codes induction =>
    unfold markDeleted bury
    cases able : journal.index.canBury code owner with
    | false => exact induction journal
    | true =>
      rcases append_cases disk journal (.tombstone code (journal.urlOf code) owner) with
        ⟨cause, broken⟩ | written
      · simp only [broken, if_true]
      · simp only [written, if_true, induction, Index.bury_code]

namespace LinkTable

variable {table next : LinkTable} {code : ShortCode} {owner : String}

theorem insert_code {url : String} (inserted : table.insert code url owner = .ok (true, next))
    (other : ShortCode) :
    next.rows.any (·.hasCode other) =
      (table.rows.any (·.hasCode other) || decide (code = other)) := by
  unfold insert at inserted
  split at inserted
  · cases inserted
  · split at inserted
    · cases inserted
    · split at inserted
      · cases inserted
      · cases inserted
        rcases code with ⟨text⟩
        rcases other with ⟨wanted⟩
        rw [Bool.eq_iff_iff]
        simp [Row.hasCode, Row.live, Cell.ofText_inj]

theorem bury_code (buried : table.bury code owner = .ok next) (other : ShortCode) :
    next.rows.any (·.hasCode other) = table.rows.any (·.hasCode other) := by
  unfold bury at buried
  simp only at buried
  split at buried
  · cases buried
  · cases buried
    rw [List.any_map]
    congr 1
    funext row
    rw [Function.comp_apply]
    split <;> rfl

theorem buryAll_code (owner : String) (codes : List ShortCode) (table : Option LinkTable)
    (other : ShortCode) :
    ((Database.buryAll owner codes table).1.any fun table => table.rows.any (·.hasCode other)) =
      table.any fun table => table.rows.any (·.hasCode other) := by
  induction codes generalizing table with
  | nil => rfl
  | cons code codes induction =>
    cases table with
    | none => exact induction none
    | some rows =>
      simp only [Database.buryAll]
      cases buried : rows.bury code owner with
      | error error => exact induction (some rows)
      | ok changed =>
        rw [induction (some changed), Option.any_some, bury_code buried, Option.any_some]

end LinkTable

namespace Backend

variable {backend before between after : Backend} {disk : Disk} {owner : String}

/-- The later backend holds no codes but those of the earlier one and these. -/
def Brings (before : Backend) (codes : List ShortCode) (after : Backend) : Prop :=
  ∀ other, after.hasCode other = true → before.hasCode other = true ∨ other ∈ codes

theorem brings_refl (backend : Backend) (codes : List ShortCode) : backend.Brings codes backend :=
  fun _ held => .inl held

theorem brings_trans {first second : List ShortCode} (early : before.Brings first between)
    (late : between.Brings second after) : before.Brings (first ++ second) after := by
  intro other held
  rcases late other held with known | new
  · exact (early other known).imp_right (List.mem_append_left second)
  · exact .inr (List.mem_append_right first new)

theorem put_brings (disk : Disk) (backend : Backend) (code : ShortCode) (url owner : String) :
    backend.Brings [code] (backend.perform disk (.put code url owner)).backend := by
  intro other held
  cases backend with
  | memory index =>
    simp only [perform, performMemory, Index.insert] at held
    split at held
    · exact .inl held
    · simpa [hasCode, Index.store_code, or_comm] using held
  | journal path journal =>
    simp only [perform, performJournal, Journal.put] at held
    split at held
    · exact .inl held
    · rcases Journal.append_cases disk journal (.live code url owner) with
        ⟨cause, broken⟩ | written
      · simp only [broken] at held
        exact .inl held
      · simp only [written] at held
        simpa [hasCode, Index.store_code, or_comm] using held
  | database database =>
    simp only [perform, performDatabase] at held
    cases found : database.table with
    | error error =>
      simp only [Database.put, Database.attempt, found] at held
      exact .inl held
    | ok table =>
      have read := (Database.table_ok_iff.1 found).2
      cases inserted : table.insert code url owner with
      | error error =>
        left
        cases error <;> simpa only [Database.put, Database.attempt, found, inserted] using held
      | ok done =>
        rcases done with ⟨_ | _, next⟩
        · simp only [Database.put, Database.attempt, found, inserted] at held
          exact .inl held
        · simp only [Database.put, Database.attempt, found, inserted, hasCode,
            Database.withTable, Option.any_some, LinkTable.insert_code inserted, Bool.or_eq_true,
            decide_eq_true_eq] at held
          rw [hasCode, read, Option.any_some, List.mem_singleton]
          exact held.imp_right Eq.symm

theorem put_collides {code : ShortCode} {url text : String}
    (failed : (backend.perform disk (.put code url owner)).answer = .error (.codeCollision text)) :
    backend.hasCode code = true := by
  have shown := put_shows disk backend code url owner
  rw [failed] at shown
  generalize (backend.perform disk (.put code url owner)).backend = after at shown
  cases shown with
  | collision known => exact known
  | broken noConflict noCollision => exact absurd rfl (noCollision text)

/-- A batch brings its own codes, and collides only where one of them is stored already or comes
twice. -/
theorem try_all_brings (disk : Disk) (owner : String) (entries : List BatchEntry)
    (backend : Backend) :
    backend.Brings (entries.map BatchEntry.code)
        (tryAll disk owner (entries.map Trial.plain) backend).2 ∧
      ∀ text, (tryAll disk owner (entries.map Trial.plain) backend).1 =
          .error (.codeCollision text) →
        (∃ code ∈ entries.map BatchEntry.code, backend.hasCode code = true) ∨
          ¬ (entries.map BatchEntry.code).Nodup := by
  induction entries generalizing backend with
  | nil => exact ⟨brings_refl backend [], by simp [tryAll]⟩
  | cons entry entries induction =>
    have first := put_brings disk backend entry.code entry.url owner
    have collides := @put_collides backend disk owner entry.code entry.url
    simp only [List.map_cons, tryAll, tryPut, Trial.plain]
    cases answer : (backend.perform disk (.put entry.code entry.url owner)).answer with
    | error error =>
      refine ⟨fun other held => (first other held).imp_right (List.mem_append_left _), ?_⟩
      intro text same
      left
      have refused : (backend.perform disk (.put entry.code entry.url owner)).answer =
          .error (.codeCollision text) := by
        rw [answer]
        exact same
      exact ⟨entry.code, List.mem_cons_self, collides refused⟩
    | ok done =>
      rcases induction (backend.perform disk (.put entry.code entry.url owner)).backend with
        ⟨later, collidesLater⟩
      refine ⟨brings_trans first later, ?_⟩
      intro text same
      rcases collidesLater text same with ⟨code, listed, known⟩ | twice
      · rcases first code known with before | own
        · exact .inl ⟨code, List.mem_cons_of_mem _ listed, before⟩
        · right
          rw [List.mem_singleton.1 own] at listed
          simp [List.nodup_cons, listed]
      · right
        intro once
        exact twice (List.nodup_cons.1 once).2

theorem batch_brings (disk : Disk) (backend : Backend) (entries : List BatchEntry)
    (owner : String) :
    backend.Brings (entries.map BatchEntry.code)
        (backend.perform disk (.putBatch entries owner)).backend ∧
      ∀ text, (backend.perform disk (.putBatch entries owner)).answer =
          .error (.codeCollision text) →
        (∃ code ∈ entries.map BatchEntry.code, backend.hasCode code = true) ∨
          ¬ (entries.map BatchEntry.code).Nodup := by
  have tried := try_all_brings disk owner entries backend
  cases backend with
  | memory index =>
    rw [try_all_memory] at tried
    exact tried
  | journal path held =>
    rw [try_all_journal] at tried
    exact tried
  | database held =>
    simp only [perform, performDatabase]
    cases found : held.table with
    | error error =>
      -- Nothing can be read, so nothing is written and no code is looked at.
      unfold Database.table at found
      split at found
      · rename_i shut
        simp only [Database.putTogether, shut, if_true]
        exact ⟨brings_refl _ _, by simp [Database.closedError]⟩
      · rename_i connected
        split at found
        · rename_i none
          cases entries with
          | nil =>
            simp only [Database.putTogether, connected, Bool.false_eq_true, if_false]
            exact ⟨brings_refl _ _, by simp⟩
          | cons entry entries =>
            simp only [Database.putTogether, connected, none, Bool.false_eq_true, if_false]
            exact ⟨brings_refl _ _, by simp [Database.statementError]⟩
        · cases found
    | ok table =>
      have same := put_tried_all found disk owner (entries.map Trial.plain)
      rw [Database.putTried_plain found] at same
      cases ran : tryAll disk owner (entries.map Trial.plain) (.database held) with
      | mk answer last =>
        rw [ran] at same tried
        cases answer with
        | error error =>
          rcases Prod.mk.inj same with ⟨failed, undone⟩
          rw [failed, undone]
          exact ⟨brings_refl _ _, tried.2⟩
        | ok done =>
          rcases Prod.mk.inj same with ⟨succeeded, reached⟩
          rw [succeeded, reached]
          exact tried

theorem perform_brings {α : Type} (disk : Disk) (backend : Backend) (call : StoreCall α) :
    backend.Brings call.brings (backend.perform disk call).backend := by
  cases call with
  | put code url owner => exact put_brings disk backend code url owner
  | putBatch entries owner => exact (batch_brings disk backend entries owner).1
  | markDeleted codes owner =>
    intro other held
    left
    cases backend with
    | memory index => exact (index.buryAll_code codes owner other).symm.trans held
    | journal path journal =>
      exact (Journal.markDeleted_code disk owner codes journal other).symm.trans held
    | database database =>
      simp only [perform, performDatabase, Database.markDeleted] at held
      split at held
      · exact held
      · exact (LinkTable.buryAll_code owner codes database.file.table other).symm.trans held
  | _ => cases backend <;> exact brings_refl _ _

theorem findUrl_never_collides (disk : Disk) (backend : Backend) (url text : String) :
    (backend.perform disk (.findUrl url)).answer ≠ .error (.codeCollision text) := by
  cases backend with
  | memory index => simp [perform, performMemory]
  | journal path held => simp [perform, performJournal]
  | database held =>
    intro failed
    simp only [perform, performDatabase, Database.findUrl, Database.table, Bind.bind,
      Except.bind] at failed
    split at failed
    · rename_i unread
      split at unread
      · cases unread
        simp [Database.closedError] at failed
      · split at unread
        · cases unread
          simp [Database.statementError] at failed
        · cases unread
    · split at failed
      · cases failed
      · rename_i row _
        cases read : row.code.asText <;>
          simp [Database.textColumn, Database.columnError, Except.mapError, read, pure,
            Except.pure] at failed

/-- Where its codes are new to the store, and differ, no shortening collides. -/
theorem never_collides {α : Type} {call : StoreCall α} (shortens : call.shortens = true)
    (free : ∀ code ∈ call.brings, backend.hasCode code = false) (once : call.brings.Nodup)
    (text : String) : (backend.perform disk call).answer ≠ .error (.codeCollision text) := by
  intro failed
  cases call with
  | put code url owner =>
    have known := put_collides failed
    rw [free code List.mem_cons_self] at known
    cases known
  | putBatch entries owner =>
    rcases (batch_brings disk backend entries owner).2 text failed with ⟨code, listed, known⟩ |
      twice
    · rw [free code listed] at known
      cases known
    · exact twice once
  | findUrl url => exact findUrl_never_collides disk backend url text failed
  | _ => cases shortens

end Backend

def Receipt.failure? : Receipt → Option ServiceError
  | shortened _ (.error cause) => some cause
  | batched _ (.error cause) => some cause
  | resolved _ (.error cause) => some cause
  | _ => none

/-- A client that still draws codes for the items of its batch, or is in a dialogue. -/
inductive Client
  | gathering (codes : List ShortCode) (items : List BatchItem) (owner : String)
  | talking (talk : Dialogue Receipt)

/-- The client of a batch once it has drawn these codes. -/
def Client.ofBatch (baseUrl : String) (codes : List ShortCode) (items : List BatchItem)
    (owner : String) : Client :=
  if codes.length < items.length then .gathering codes items owner
  else .talking ((Inquiry.shortenBatch baseUrl codes items owner).map (.batched items))

/-- A service that draws codes, its store and its clients. -/
structure Drawing where
  service : Shortener
  backend : Backend
  clients : List Client

namespace Drawing

/-- A client comes, and draws the code for its URL at once; or it comes with a batch, and draws
code by code. Whoever has its codes goes on by one call, on the disk as it is then, or answers.
Deletions come in between. -/
inductive Step
  | shorten (url owner : String)
  | shortenBatch (items : List BatchItem) (owner : String)
  | draw (client : Nat)
  | advance (client : Nat) (disk : Disk)
  | delete (codes : List ShortCode) (owner : String) (disk : Disk)

def Step.draws : Step → Bool
  | shorten _ _ | draw _ => true
  | _ => false

def step? (drawing : Drawing) : Step → Option (Drawing × List Receipt)
  | .shorten url owner =>
      let (inquiry, service) := drawing.service.shorten url owner
      let talk := inquiry.map (.shortened url)
      some ({ drawing with service, clients := drawing.clients ++ [.talking talk] }, [])
  | .shortenBatch items owner =>
      let client := Client.ofBatch drawing.service.baseUrl [] items owner
      some ({ drawing with clients := drawing.clients ++ [client] }, [])
  | .draw client =>
      match drawing.clients[client]? with
      | some (.gathering drawn items owner) =>
          let (code, codes) := drawing.service.codes.draw
          let next := Client.ofBatch drawing.service.baseUrl (drawn ++ [code]) items owner
          some ({ drawing with
            service := { drawing.service with codes }
            clients := drawing.clients.set client next }, [])
      | _ => none
  | .advance client disk =>
      match drawing.clients[client]? with
      | some (.talking (.done receipt)) =>
          some ({ drawing with clients := drawing.clients.eraseIdx client }, [receipt])
      | some (.talking (.ask call next)) =>
          let answered := drawing.backend.perform disk call
          some ({ drawing with
            backend := answered.backend
            clients := drawing.clients.set client (.talking (next answered.answer)) }, [])
      | _ => none
  | .delete codes owner disk =>
      some ({ drawing with
        backend := (drawing.backend.perform disk (.markDeleted codes owner)).backend }, [])

def run? (steps : List Step) (drawing : Drawing) : Option (Drawing × List Receipt) :=
  takeAll? step? steps drawing

end Drawing

/-- The codes that the next call of a dialogue is to store. -/
def Dialogue.claims {α : Type} : Dialogue α → List ShortCode
  | .done _ => []
  | .ask call _ => call.brings

/-- No answer but a collision leads to a collision, and only the first call stores codes. -/
def Dialogue.Harmless : Dialogue Receipt → Prop
  | .done receipt => ∀ text, receipt.failure? ≠ some (.codeCollision text)
  | .ask call next =>
      call.shortens = true ∧
        ∀ answer, (∀ text, answer ≠ .error (.codeCollision text)) →
          (next answer).claims = [] ∧ (next answer).Harmless

theorem of_storage_collision {cause : StorageError} {text : String}
    (collides : ServiceError.ofStorage cause = .codeCollision text) :
    cause = .codeCollision text := by
  cases cause <;> simp_all [ServiceError.ofStorage]

theorem harmless_shorten (baseUrl : String) (code : ShortCode) (url owner : String) :
    ((Inquiry.shorten baseUrl code url owner).map (.shortened url)).Harmless := by
  have failed : ∀ {cause : StorageError}, (∀ text, cause ≠ .codeCollision text) → ∀ text,
      (Receipt.shortened url (.error (.ofStorage cause))).failure? ≠
        some (.codeCollision text) := by
    intro cause other text same
    exact other text (of_storage_collision (Option.some.inj same))
  refine ⟨rfl, ?_⟩
  intro answer fine
  rcases answer with cause | done
  · cases cause with
    | conflict taken =>
      refine ⟨rfl, rfl, ?_⟩
      intro found fine
      rcases found with cause | known
      · exact ⟨rfl, failed fun text same => fine text (congrArg Except.error same)⟩
      · cases known <;> exact ⟨rfl, fun text => by simp [Receipt.failure?]⟩
    | codeCollision text => exact absurd rfl (fine text)
    | _ => exact ⟨rfl, failed fun text => by simp⟩
  · exact ⟨rfl, fun text => by simp [Receipt.failure?]⟩

theorem harmless_batch (baseUrl : String) (codes : List ShortCode) (items : List BatchItem)
    (owner : String) :
    ((Inquiry.shortenBatch baseUrl codes items owner).map (.batched items)).Harmless := by
  cases items with
  | nil => exact fun text => by simp [Receipt.failure?]
  | cons item items =>
    refine ⟨rfl, ?_⟩
    intro answer fine
    rcases answer with cause | done
    · refine ⟨rfl, ?_⟩
      intro text same
      have collides := of_storage_collision (Option.some.inj same)
      exact fine text (congrArg Except.error collides)
    · exact ⟨rfl, fun text => by simp [Receipt.failure?, Except.map, Except.mapError]⟩

namespace Client

def claims : Client → List ShortCode
  | gathering codes _ _ => codes
  | talking talk => talk.claims

def Harmless : Client → Prop
  | gathering _ _ _ => True
  | talking talk => talk.Harmless

theorem harmless_ofBatch (baseUrl : String) (codes : List ShortCode) (items : List BatchItem)
    (owner : String) : (ofBatch baseUrl codes items owner).Harmless := by
  unfold ofBatch
  split
  · trivial
  · exact harmless_batch baseUrl codes items owner

theorem entries_codes (codes : List ShortCode) (items : List BatchItem) :
    ((codes.zipWith (fun code item => BatchEntry.mk code item.url) items).map
      BatchEntry.code).Sublist codes := by
  induction codes generalizing items with
  | nil => exact List.nil_sublist []
  | cons code codes induction =>
    cases items with
    | nil => exact List.nil_sublist _
    | cons item items => exact (induction items).cons_cons code

theorem claims_ofBatch (baseUrl : String) (codes : List ShortCode) (items : List BatchItem)
    (owner : String) : (ofBatch baseUrl codes items owner).claims.Sublist codes := by
  unfold ofBatch
  split
  · exact List.Sublist.refl codes
  · cases items with
    | nil => exact List.nil_sublist codes
    | cons item items => exact entries_codes codes (item :: items)

end Client

def Early (stem : String) (limit : Nat) (code : ShortCode) : Prop :=
  ∃ counter : UInt64, counter.toNat < limit ∧
    code = (CodeSequence.mk stem counter).codeAt counter

def nextCode (stem : String) (limit : Nat) : ShortCode :=
  (CodeSequence.mk stem (.ofNat limit)).codeAt (.ofNat limit)

theorem early_mono {stem : String} {limit : Nat} {code : ShortCode}
    (early : Early stem limit code) : Early stem (limit + 1) code := by
  rcases early with ⟨counter, below, same⟩
  exact ⟨counter, Nat.lt_succ_of_lt below, same⟩

theorem early_next {stem : String} {limit : Nat} (room : limit < 2 ^ 64) :
    Early stem (limit + 1) (nextCode stem limit) := by
  refine ⟨.ofNat limit, ?_, rfl⟩
  rw [UInt64.toNat_ofNat_of_lt' room]
  exact Nat.lt_succ_self limit

theorem not_early_next {stem : String} {limit : Nat} (room : limit < 2 ^ 64) :
    ¬ Early stem limit (nextCode stem limit) := by
  rintro ⟨counter, below, same⟩
  have equal : UInt64.ofNat limit = counter :=
    CodeSequence.codeAt_injective (CodeSequence.mk stem counter) same
  rw [← equal, UInt64.toNat_ofNat_of_lt' room] at below
  exact Nat.lt_irrefl limit below

theorem draw_next (stem : String) (limit : Nat) :
    (CodeSupply.sequence ⟨stem, .ofNat limit⟩).draw =
      (nextCode stem limit, .sequence ⟨stem, .ofNat (limit + 1)⟩) := by
  simp [CodeSupply.draw, CodeSequence.draw, nextCode, UInt64.ofNat_add]

namespace Drawing

def claims (drawing : Drawing) : List ShortCode := drawing.clients.flatMap Client.claims

/-- The codes that are stored or held belong to counters below the limit, the counter that comes
next. No code is held twice, or held and stored. -/
structure Apart (stem : String) (limit : Nat) (drawing : Drawing) : Prop where
  codes : drawing.service.codes = .sequence ⟨stem, .ofNat limit⟩
  stored : ∀ code, drawing.backend.hasCode code = true → Early stem limit code
  held : ∀ code ∈ drawing.claims, Early stem limit code ∧ drawing.backend.hasCode code = false
  once : drawing.claims.Nodup
  harmless : ∀ client ∈ drawing.clients, client.Harmless

variable {stem : String} {limit : Nat} {drawing next : Drawing} {receipts : List Receipt}

theorem nodup_of_subperm {few many : List ShortCode} (fewer : few.Subperm many)
    (once : many.Nodup) : few.Nodup := by
  rcases fewer with ⟨some, same, inside⟩
  exact same.nodup_iff.1 (once.sublist inside)

/-- What a client holds, beside what all the others do. -/
theorem claims_perm {client : Nat} {one : Client} (found : drawing.clients[client]? = some one) :
    drawing.claims.Perm
      (one.claims ++ (drawing.clients.eraseIdx client).flatMap Client.claims) := by
  rcases List.getElem?_eq_some_iff.1 found with ⟨inside, same⟩
  have moved := (List.getElem_cons_eraseIdx_perm inside).flatMap_right Client.claims
  rw [same, List.flatMap_cons] at moved
  exact moved.symm

theorem claims_set {client : Nat} {one : Client} (found : drawing.clients[client]? = some one)
    (other : Client) :
    ((drawing.clients.set client other).flatMap Client.claims).Perm
      (other.claims ++ (drawing.clients.eraseIdx client).flatMap Client.claims) := by
  rcases List.getElem?_eq_some_iff.1 found with ⟨inside, _⟩
  have moved := (List.set_perm_cons_eraseIdx inside other).flatMap_right Client.claims
  rwa [List.flatMap_cons] at moved

theorem apart_kept (apart : Apart stem limit drawing)
    (codes : next.service.codes = drawing.service.codes) (same : next.backend = drawing.backend)
    (fewer : next.claims.Subperm drawing.claims)
    (harmless : ∀ client ∈ next.clients, client.Harmless) : Apart stem limit next := by
  refine ⟨codes.trans apart.codes, ?_, ?_, nodup_of_subperm fewer apart.once, harmless⟩
  · rw [same]
    exact apart.stored
  · intro code claimed
    rw [same]
    exact apart.held code (fewer.subset claimed)

theorem apart_drawn (apart : Apart stem limit drawing) (room : limit < 2 ^ 64)
    (codes : next.service.codes = .sequence ⟨stem, .ofNat (limit + 1)⟩)
    (same : next.backend = drawing.backend)
    (drawn : next.claims.Subperm (nextCode stem limit :: drawing.claims))
    (harmless : ∀ client ∈ next.clients, client.Harmless) : Apart stem (limit + 1) next := by
  have new : nextCode stem limit ∉ drawing.claims :=
    fun claimed => not_early_next room (apart.held _ claimed).1
  have once : (nextCode stem limit :: drawing.claims).Nodup := List.nodup_cons.2 ⟨new, apart.once⟩
  refine ⟨codes, ?_, ?_, nodup_of_subperm drawn once, harmless⟩
  · intro code stored
    rw [same] at stored
    exact early_mono (apart.stored code stored)
  · intro code claimed
    rw [same]
    rcases List.mem_cons.1 (drawn.subset claimed) with rfl | known
    · refine ⟨early_next room, ?_⟩
      by_contra stored
      exact not_early_next room (apart.stored _ (by simpa using stored))
    · exact ⟨early_mono (apart.held code known).1, (apart.held code known).2⟩

theorem harmless_set {client : Nat} {other : Client} (apart : Apart stem limit drawing)
    (harmless : other.Harmless) :
    ∀ one ∈ drawing.clients.set client other, one.Harmless := by
  intro one member
  rcases List.mem_or_eq_of_mem_set member with old | rfl
  · exact apart.harmless one old
  · exact harmless

theorem harmless_new {other : Client} (apart : Apart stem limit drawing)
    (harmless : other.Harmless) : ∀ one ∈ drawing.clients ++ [other], one.Harmless := by
  intro one member
  rcases List.mem_append.1 member with old | new
  · exact apart.harmless one old
  · obtain rfl := List.mem_singleton.1 new
    exact harmless

/-- A call stores what its client has held, and nobody else holds that. -/
theorem apart_call {β : Type} {client : Nat} {call : StoreCall β} {disk : Disk}
    {rest : Except StorageError β → Dialogue Receipt} (apart : Apart stem limit drawing)
    (found : drawing.clients[client]? = some (.talking (.ask call rest))) :
    Apart stem limit
      { drawing with
        backend := (drawing.backend.perform disk call).backend
        clients := drawing.clients.set client
          (.talking (rest (drawing.backend.perform disk call).answer)) } := by
  have split := claims_perm found
  have once := split.nodup_iff.1 apart.once
  have harmless : (Dialogue.ask call rest).Harmless :=
    apart.harmless _ (List.mem_of_getElem? found)
  have brought := Backend.perform_brings disk drawing.backend call
  have held : ∀ code ∈ call.brings, Early stem limit code ∧ drawing.backend.hasCode code = false :=
    fun code own => apart.held code (split.symm.subset (List.mem_append_left _ own))
  have fine : ∀ text,
      (drawing.backend.perform disk call).answer ≠ .error (.codeCollision text) :=
    Backend.never_collides harmless.1 (fun code own => (held code own).2)
      (List.nodup_append.1 once).1
  rcases harmless.2 _ fine with ⟨nothing, later⟩
  have left := claims_set found (.talking (rest (drawing.backend.perform disk call).answer))
  rw [Client.claims, nothing, List.nil_append] at left
  refine ⟨apart.codes, ?_, ?_, left.nodup_iff.2 (List.nodup_append.1 once).2.1,
    harmless_set apart later⟩
  · intro code stored
    rcases brought code stored with before | own
    · exact apart.stored code before
    · exact (held code own).1
  · intro code claimed
    have other := left.subset claimed
    have known := apart.held code (split.symm.subset (List.mem_append_right _ other))
    refine ⟨known.1, ?_⟩
    by_contra stored
    rcases brought code (by simpa using stored) with before | own
    · rw [known.2] at before
      cases before
    · exact (List.nodup_append.1 once).2.2 code own code other rfl

theorem apart_delete (apart : Apart stem limit drawing) (codes : List ShortCode) (owner : String)
    (disk : Disk) :
    Apart stem limit
      { drawing with
        backend := (drawing.backend.perform disk (.markDeleted codes owner)).backend } := by
  have brought : ∀ code, (drawing.backend.perform disk
      (.markDeleted codes owner)).backend.hasCode code = true →
        drawing.backend.hasCode code = true := by
    intro code stored
    rcases Backend.perform_brings disk drawing.backend (.markDeleted codes owner) code stored with
      before | own
    · exact before
    · cases own
  refine ⟨apart.codes, fun code stored => apart.stored code (brought code stored), ?_, apart.once,
    apart.harmless⟩
  intro code claimed
  refine ⟨(apart.held code claimed).1, ?_⟩
  by_contra stored
  have before := brought code (by simpa using stored)
  rw [(apart.held code claimed).2] at before
  cases before

/-- No answer reports a collision. -/
def Uncollided (receipts : List Receipt) : Prop :=
  ∀ receipt ∈ receipts, ∀ text, receipt.failure? ≠ some (.codeCollision text)

theorem apart_shorten (apart : Apart stem limit drawing) (room : limit < 2 ^ 64)
    {url owner : String}
    (stepped : drawing.step? (.shorten url owner) = some (next, receipts)) :
    Apart stem (limit + 1) next ∧ Uncollided receipts := by
  simp only [step?, Shortener.shorten, apart.codes, draw_next, Option.some.injEq,
    Prod.mk.injEq] at stepped
  rcases stepped with ⟨rfl, rfl⟩
  refine ⟨apart_drawn apart room rfl rfl ?_ ?_, by simp [Uncollided]⟩
  · have claims : (drawing.clients ++ [Client.talking ((Inquiry.shorten drawing.service.baseUrl
        (nextCode stem limit) url owner).map (.shortened url))]).flatMap Client.claims =
          drawing.claims ++ [nextCode stem limit] := by
      rw [List.flatMap_append, List.flatMap_singleton]
      rfl
    exact (List.Perm.trans (.of_eq claims) (List.perm_append_singleton _ _)).subperm
  · exact harmless_new apart (harmless_shorten _ _ url owner)

theorem apart_draw (apart : Apart stem limit drawing) (room : limit < 2 ^ 64) {client : Nat}
    (stepped : drawing.step? (.draw client) = some (next, receipts)) :
    Apart stem (limit + 1) next ∧ Uncollided receipts := by
  simp only [step?] at stepped
  split at stepped
  · rename_i drawn items owner found
    simp only [apart.codes, draw_next, Option.some.injEq, Prod.mk.injEq] at stepped
    rcases stepped with ⟨rfl, rfl⟩
    refine ⟨apart_drawn apart room rfl rfl ?_ ?_, by simp [Uncollided]⟩
    · have fewer := Client.claims_ofBatch drawing.service.baseUrl
        (drawn ++ [nextCode stem limit]) items owner
      have together := claims_set found (Client.ofBatch drawing.service.baseUrl
        (drawn ++ [nextCode stem limit]) items owner)
      have whole : (drawn ++ [nextCode stem limit] ++
          (drawing.clients.eraseIdx client).flatMap Client.claims).Perm
            (nextCode stem limit :: drawing.claims) := by
        rw [List.append_assoc]
        exact List.perm_middle.trans ((claims_perm found).symm.cons _)
      exact (together.subperm.trans (fewer.append_right _).subperm).trans whole.subperm
    · exact harmless_set apart (Client.harmless_ofBatch _ _ items owner)
  · cases stepped

/-- A client goes on: it hands in its receipt, or makes its next call. -/
theorem apart_advance (apart : Apart stem limit drawing) {client : Nat} {disk : Disk}
    (stepped : drawing.step? (.advance client disk) = some (next, receipts)) :
    Apart stem limit next ∧ Uncollided receipts := by
  simp only [step?] at stepped
  split at stepped
  · rename_i receipt found
    cases stepped
    refine ⟨apart_kept apart rfl rfl ?_ ?_, ?_⟩
    · have split := claims_perm found
      exact split.symm.subperm
    · intro one member
      exact apart.harmless one (List.mem_of_mem_eraseIdx member)
    · intro other member
      obtain rfl := List.mem_singleton.1 member
      exact apart.harmless _ (List.mem_of_getElem? found)
  · rename_i call rest found
    cases stepped
    exact ⟨apart_call apart found, by simp [Uncollided]⟩
  · cases stepped

theorem apart_step {step : Step} (apart : Apart stem limit drawing)
    (room : step.draws = true → limit < 2 ^ 64)
    (stepped : drawing.step? step = some (next, receipts)) :
    Apart stem (limit + if step.draws then 1 else 0) next ∧ Uncollided receipts := by
  cases step with
  | shorten url owner => exact apart_shorten apart (room rfl) stepped
  | shortenBatch items owner =>
    cases stepped
    have nothing : (Client.ofBatch drawing.service.baseUrl [] items owner).claims = [] :=
      List.sublist_nil.1 (Client.claims_ofBatch _ [] items owner)
    refine ⟨apart_kept apart rfl rfl ?_ ?_, by simp [Uncollided]⟩
    · apply List.Perm.subperm
      simp [claims, nothing]
    · exact harmless_new apart (Client.harmless_ofBatch _ [] items owner)
  | draw client => exact apart_draw apart (room rfl) stepped
  | advance client disk => exact apart_advance apart stepped
  | delete codes owner disk =>
    cases stepped
    exact ⟨apart_delete apart codes owner disk, by simp [Uncollided]⟩

theorem apart_run {steps : List Step} (apart : Apart stem limit drawing)
    (few : limit + steps.countP Step.draws ≤ 2 ^ 64)
    (ran : run? steps drawing = some (next, receipts)) :
    (∃ later, Apart stem later next) ∧ Uncollided receipts := by
  induction steps generalizing limit drawing receipts with
  | nil =>
    cases ran
    exact ⟨⟨limit, apart⟩, by simp [Uncollided]⟩
  | cons step steps induction =>
    rcases take_all_cons ran with ⟨between, before, after, stepped, onward, rfl⟩
    rw [List.countP_cons] at few
    have room : step.draws = true → limit < 2 ^ 64 := by
      intro draws
      rw [if_pos draws] at few
      omega
    rcases apart_step apart room stepped with ⟨kept, first⟩
    rcases induction kept (by omega) onward with ⟨reached, later⟩
    refine ⟨reached, ?_⟩
    intro receipt member
    exact (List.mem_append.1 member).elim (first receipt) (later receipt)

/-- A put that is about to be made comes to its end with one statement, also in a database. -/
def Settles (drawing : Drawing) : Prop :=
  ∀ code url owner next, Client.talking (.ask (.put code url owner) next) ∈ drawing.clients →
    ∀ held, drawing.backend = .database held → (held.attempt code url owner).1 ≠ .violated

theorem settles_of_apart (apart : Apart stem limit drawing) : drawing.Settles := by
  intro code url owner rest member held same violated
  have claimed : code ∈ drawing.claims :=
    List.mem_flatMap.2 ⟨_, member, List.mem_cons_self⟩
  have free := (apart.held code claimed).2
  rcases Database.taken_of_attempt (Prod.ext violated rfl) with ⟨_, table, read, taken⟩
  rw [same, Backend.hasCode, read, Option.any_some, taken.code] at free
  cases free

/-- A service that draws from a sequence, over a store that holds no code of the sequence but those
of counters before the first: however its clients take turns, as long as the counter does not start
again, no answer reports a collision, and no insert finds its code taken. -/
theorem sequence_never_collides {service : Shortener} {first : UInt64} {backend : Backend}
    (sequence : service.codes = .sequence ⟨stem, first⟩)
    (early : ∀ code, backend.hasCode code = true →
      ∃ counter < first, code = (CodeSequence.mk stem first).codeAt counter)
    {steps : List Step} (few : steps.countP Step.draws ≤ 2 ^ 64 - first.toNat)
    (ran : run? steps ⟨service, backend, []⟩ = some (drawing, receipts)) :
    Uncollided receipts ∧ drawing.Settles := by
  have begins : Apart stem first.toNat ⟨service, backend, []⟩ := by
    refine ⟨?_, ?_, by simp [claims], by simp [claims], by simp⟩
    · rw [UInt64.ofNat_toNat]
      exact sequence
    · intro code stored
      rcases early code stored with ⟨counter, below, same⟩
      exact ⟨counter, UInt64.lt_iff_toNat_lt.1 below, same⟩
  have inside := first.toNat_lt
  rcases apart_run begins (by omega) ran with ⟨⟨limit, apart⟩, fine⟩
  exact ⟨fine, settles_of_apart apart⟩

/-- The store has the code of counter 0. Two clients want the same URL, and a batch draws a code
before and a code after the second of them comes. -/
def together : List Step :=
  [.shorten "http://x" "u1",
    .shortenBatch [⟨"1", "http://y"⟩, ⟨"2", "http://x"⟩] "u2", .draw 1,
    .shorten "http://x" "u3", .draw 1, .advance 0 .roomy, .advance 1 .roomy, .advance 2 .roomy,
    .delete [⟨"s0000001"⟩] "u1" .roomy, .advance 2 .roomy, .advance 2 .roomy, .advance 1 .roomy,
    .advance 0 .roomy]

theorem together_never_collides :
    ∃ drawing receipts,
      run? together ⟨⟨.sequence ⟨"s", 1⟩, "http://h", 0⟩,
        .memory (Index.empty.store ⟨"s0000000"⟩ "http://old" "u0"), []⟩ =
          some (drawing, receipts) ∧
      together.countP Step.draws ≤ 2 ^ 64 - (1 : UInt64).toNat ∧
      receipts = [.shortened "http://x" (.ok (.existing "http://h/s0000001")),
        .batched [⟨"1", "http://y"⟩, ⟨"2", "http://x"⟩] (.error (.conflict "http://x")),
        .shortened "http://x" (.ok (.created "http://h/s0000001"))] ∧
      Uncollided receipts ∧ drawing.Settles := by
  have early : ∀ code, (Backend.memory (Index.empty.store ⟨"s0000000"⟩ "http://old" "u0")).hasCode
      code = true →
        ∃ counter < (1 : UInt64), code = (CodeSequence.mk "s" 1).codeAt counter := by
    intro code stored
    rw [Backend.hasCode, Index.store_code, Bool.or_eq_true, decide_eq_true_eq] at stored
    rcases stored with rfl | none
    · exact ⟨0, by decide, rfl⟩
    · cases none
  have few : together.countP Step.draws ≤ 2 ^ 64 - (1 : UInt64).toNat := by decide
  obtain ⟨drawing, receipts, ran, answers⟩ : ∃ drawing receipts,
      run? together ⟨⟨.sequence ⟨"s", 1⟩, "http://h", 0⟩,
        .memory (Index.empty.store ⟨"s0000000"⟩ "http://old" "u0"), []⟩ =
          some (drawing, receipts) ∧
      receipts = [.shortened "http://x" (.ok (.existing "http://h/s0000001")),
        .batched [⟨"1", "http://y"⟩, ⟨"2", "http://x"⟩] (.error (.conflict "http://x")),
        .shortened "http://x" (.ok (.created "http://h/s0000001"))] :=
    ⟨_, _, rfl, rfl⟩
  exact ⟨drawing, receipts, ran, few, answers, sequence_never_collides rfl early few ran⟩

end Drawing

end ShortLinks
