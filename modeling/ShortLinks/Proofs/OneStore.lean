import ShortLinks.Proofs.LedgerTable
import ShortLinks.Proofs.Session

/-!
# One store behind every backend

A backend that was opened on nothing keeps a ledger: its index, or its table, is that of
the ledger, and every call leads to the same answer on both sides and keeps it so. The one
point of difference is the batch policy, so backends of different kinds can be told apart
only by a batch that fails.
-/

namespace ShortLinks

set_option autoImplicit false

namespace Journal

theorem put_roomy (journal : Journal) (code : ShortCode) (url owner : String) :
    (journal.put .roomy code url owner).1 = (journal.index.insert code url owner).1 ∧
      (journal.put .roomy code url owner).2.index =
        (journal.index.insert code url owner).2 := by
  unfold put Index.insert
  cases journal.index.refusal? code url with
  | some error => exact ⟨rfl, rfl⟩
  | none => exact ⟨rfl, rfl⟩

theorem putLeading_roomy (owner : String) (entries : List BatchEntry) (journal : Journal) :
    (putLeading .roomy owner entries journal).1 =
        (journal.index.insertLeading owner entries).1 ∧
      (putLeading .roomy owner entries journal).2.index =
        (journal.index.insertLeading owner entries).2 := by
  induction entries generalizing journal with
  | nil => exact ⟨rfl, rfl⟩
  | cons entry entries ih =>
    rcases put_roomy journal entry.code entry.url owner with ⟨sameAnswer, sameIndex⟩
    unfold putLeading Index.insertLeading
    cases stored : journal.put .roomy entry.code entry.url owner with
    | mk answer next =>
      cases inserted : journal.index.insert entry.code entry.url owner with
      | mk expected index =>
        rw [stored, inserted] at sameAnswer sameIndex
        simp only at sameAnswer sameIndex
        subst sameAnswer sameIndex
        cases answer with
        | error error => exact ⟨rfl, rfl⟩
        | ok done => exact ih next

theorem bury_roomy (journal : Journal) (code : ShortCode) (owner : String) :
    (journal.bury .roomy code owner).1 = .ok () ∧
      (journal.bury .roomy code owner).2.index = journal.index.bury code owner := by
  unfold bury
  by_cases able : journal.index.canBury code owner = true
  · rw [if_pos able]
    exact ⟨rfl, rfl⟩
  · rw [if_neg able, Index.bury, if_neg able]
    exact ⟨rfl, rfl⟩

theorem markDeleted_roomy (owner : String) (codes : List ShortCode) (journal : Journal) :
    (markDeleted .roomy owner codes journal).1 = .ok () ∧
      (markDeleted .roomy owner codes journal).2.index = journal.index.buryAll codes owner := by
  induction codes generalizing journal with
  | nil => exact ⟨rfl, rfl⟩
  | cons code codes ih =>
    rcases bury_roomy journal code owner with ⟨answered, changed⟩
    unfold markDeleted
    cases buried : journal.bury .roomy code owner with
    | mk answer next =>
      rw [buried] at answered changed
      simp only at answered changed
      subst answered
      rcases ih next with ⟨done, indexed⟩
      refine ⟨done, ?_⟩
      simp only [indexed, changed, Index.buryAll, List.foldl_cons]

end Journal

namespace Backend

/-- The backend holds what the ledger holds. A database has no statement that fails. -/
def Keeps (backend : Backend) (ledger : Ledger) : Prop :=
  match backend with
  | .memory index => index = ledger.index
  | .journal _ held => held.index = ledger.index
  | .database held => held = ledger.database

/-- The backend that opening gives where nothing was stored before. -/
def Newborn (backend : Backend) : Prop :=
  match backend with
  | .memory index => index = Index.empty
  | .journal path held => (Journal.ofLog path []).outcome = .ok held
  | .database held => (Database.connect .fresh).1 = .ok held

theorem newborn_keeps {backend : Backend} (newborn : backend.Newborn) :
    backend.Keeps Ledger.empty := by
  cases backend with
  | memory index => exact newborn
  | journal path journal =>
    have opened : (Journal.ofLog path []).outcome = .ok ⟨[], Index.empty⟩ := rfl
    rw [Newborn, opened] at newborn
    exact (congrArg Journal.index (Except.ok.inj newborn)).symm
  | database database =>
    rw [Newborn, Ledger.connect_fresh] at newborn
    exact (Except.ok.inj newborn).symm

theorem memory_as_ledger {α : Type} {ledger : Ledger} (distinct : ledger.Distinct)
    (call : StoreCall α) :
    performMemory ledger.index call =
      ((ledger.perform .keepLeading call).1, (ledger.perform .keepLeading call).2.index) := by
  cases call with
  | put code url owner => exact ledger.index_insert code url owner
  | putBatch entries owner => exact ledger.index_insertLeading owner entries
  | markDeleted codes owner =>
    simp only [performMemory, Ledger.perform, Ledger.index_buryAll owner codes distinct]
  | get code => simp only [performMemory, Ledger.perform, Ledger.index_get]
  | findUrl url => simp only [performMemory, Ledger.perform, Index.findUrl, Ledger.index_find_url]
  | listByOwner owner =>
    simp only [performMemory, Ledger.perform, Ledger.index_listByOwner distinct]
  | stats => simp only [performMemory, Ledger.perform, Ledger.index_stats]
  | probe deadline busy => rfl
  | shutdown => rfl

theorem journal_as_memory {α : Type} (journal : Journal) (call : StoreCall α) :
    (performJournal .roomy journal call).1 = (performMemory journal.index call).1 ∧
      (performJournal .roomy journal call).2.index = (performMemory journal.index call).2 := by
  cases call with
  | put code url owner => exact journal.put_roomy code url owner
  | putBatch entries owner => exact Journal.putLeading_roomy owner entries journal
  | markDeleted codes owner => exact Journal.markDeleted_roomy owner codes journal
  | get code => exact ⟨rfl, rfl⟩
  | findUrl url => exact ⟨rfl, rfl⟩
  | listByOwner owner => exact ⟨rfl, rfl⟩
  | stats => exact ⟨rfl, rfl⟩
  | probe deadline busy => exact ⟨rfl, rfl⟩
  | shutdown => exact ⟨rfl, rfl⟩

theorem database_as_ledger {α : Type} (ledger : Ledger) (call : StoreCall α)
    (records : (Ask.mk call).aboutRecords = true) :
    performDatabase ledger.database call =
      ((ledger.perform .allOrNothing call).1,
        (ledger.perform .allOrNothing call).2.database, []) := by
  cases call with
  | put code url owner => simp only [performDatabase, Ledger.perform, Ledger.database_put]
  | putBatch entries owner =>
    simp only [performDatabase, Ledger.perform, Ledger.putBatch, Ledger.database_putTogether]
  | markDeleted codes owner => exact ledger.database_markDeleted codes owner
  | get code => simp only [performDatabase, Ledger.perform, Ledger.database_get]
  | findUrl url => simp only [performDatabase, Ledger.perform, Ledger.database_findUrl]
  | listByOwner owner => simp only [performDatabase, Ledger.perform, Ledger.database_listByOwner]
  | stats => simp only [performDatabase, Ledger.perform, Ledger.database_stats]
  | probe deadline busy => simp [Ask.aboutRecords, StoreCall.method] at records
  | shutdown => simp [Ask.aboutRecords, StoreCall.method] at records

theorem perform_as_ledger {α : Type} {backend : Backend} {ledger : Ledger}
    (keeps : backend.Keeps ledger) (distinct : ledger.Distinct) (call : StoreCall α)
    (records : (Ask.mk call).aboutRecords = true) :
    (backend.perform .roomy call).answer = (ledger.perform backend.batchPolicy call).1 ∧
      (backend.perform .roomy call).backend.batchPolicy = backend.batchPolicy ∧
      (backend.perform .roomy call).backend.Keeps
        (ledger.perform backend.batchPolicy call).2 := by
  cases backend with
  | memory index =>
    have same : index = ledger.index := keeps
    subst same
    have outcome := memory_as_ledger distinct call
    exact ⟨congrArg Prod.fst outcome, rfl, congrArg Prod.snd outcome⟩
  | journal path journal =>
    have same : journal.index = ledger.index := keeps
    rcases journal_as_memory journal call with ⟨answered, indexed⟩
    rw [same, memory_as_ledger distinct] at answered indexed
    exact ⟨answered, rfl, indexed⟩
  | database database =>
    have same : database = ledger.database := keeps
    subst same
    have outcome := database_as_ledger ledger call records
    have next : (performDatabase ledger.database call).2.1 =
        (ledger.perform .allOrNothing call).2.database :=
      congrArg (fun result => result.2.1) outcome
    exact ⟨congrArg Prod.fst outcome, rfl, next⟩

end Backend

/-- No answer to a batch is an error. -/
def BatchesSucceed (asks : List Ask) (replies : List Reply) : Prop :=
  ∀ pair ∈ asks.zip replies, pair.1.call.method = .putBatch → pair.2.succeeded = true

namespace Ledger

theorem putBatch_distinct {ledger : Ledger} (distinct : ledger.Distinct) (policy : BatchPolicy)
    (entries : List BatchEntry) (owner : String) :
    (ledger.putBatch policy entries owner).2.Distinct := by
  have leading := putLeading_distinct owner entries distinct
  cases policy with
  | keepLeading => exact leading
  | allOrNothing =>
    simp only [putBatch, putTogether]
    cases stored : putLeading owner entries ledger with
    | mk answer next =>
      rw [stored] at leading
      cases answer with
      | error error => exact distinct
      | ok done => exact leading

theorem perform_distinct {α : Type} {ledger : Ledger} (distinct : ledger.Distinct)
    (policy : BatchPolicy) (call : StoreCall α) : (ledger.perform policy call).2.Distinct := by
  cases call with
  | put code url owner => exact put_distinct distinct code url owner
  | putBatch entries owner => exact putBatch_distinct distinct policy entries owner
  | markDeleted codes owner => exact markDeleted_distinct distinct codes owner
  | get code => exact distinct
  | findUrl url => exact distinct
  | listByOwner owner => exact distinct
  | stats => exact distinct
  | probe deadline busy => exact distinct
  | shutdown => exact distinct

/-- A batch that succeeds leaves nothing to a policy. -/
theorem putBatch_policy {ledger : Ledger} {policy : BatchPolicy} {entries : List BatchEntry}
    {owner : String} (stored : (ledger.putBatch policy entries owner).1.isOk = true)
    (other : BatchPolicy) :
    ledger.putBatch other entries owner = ledger.putBatch policy entries owner := by
  cases outcome : putLeading owner entries ledger with
  | mk answer next =>
    cases answer with
    | error error =>
      cases policy <;>
        simp [putBatch, putTogether, outcome, Except.isOk, Except.toBool] at stored
    | ok done =>
      cases policy <;> cases other <;> simp only [putBatch, putTogether, outcome]

theorem perform_policy {α : Type} {ledger : Ledger} {policy : BatchPolicy} {call : StoreCall α}
    (stored : call.method = .putBatch → (ledger.perform policy call).1.isOk = true)
    (other : BatchPolicy) : ledger.perform other call = ledger.perform policy call := by
  cases call with
  | putBatch entries owner => exact putBatch_policy (stored rfl) other
  | put code url owner => rfl
  | markDeleted codes owner => rfl
  | get code => rfl
  | findUrl url => rfl
  | listByOwner owner => rfl
  | stats => rfl
  | probe deadline busy => rfl
  | shutdown => rfl

theorem session_policy {policy : BatchPolicy} {asks : List Ask} {ledger : Ledger}
    (succeed : BatchesSucceed asks (ledger.session policy asks).1) (other : BatchPolicy) :
    ledger.session other asks = ledger.session policy asks := by
  induction asks generalizing ledger with
  | nil => rfl
  | cons ask asks ih =>
    rw [session_cons] at succeed
    have first : ledger.perform other ask.call = ledger.perform policy ask.call :=
      perform_policy (succeed _ List.mem_cons_self) other
    have later := ih fun pair member => succeed pair (List.mem_cons_of_mem _ member)
    rw [session_cons, session_cons, first, later]

end Ledger

namespace Backend

theorem session_as_ledger {backend : Backend} {ledger : Ledger} (keeps : backend.Keeps ledger)
    (distinct : ledger.Distinct) (asks : List Ask)
    (records : ∀ ask ∈ asks, ask.aboutRecords = true) :
    (backend.session .roomy asks).1 = (ledger.session backend.batchPolicy asks).1 := by
  induction asks generalizing backend ledger with
  | nil => rfl
  | cons ask asks ih =>
    obtain ⟨answered, policy, kept⟩ :=
      perform_as_ledger keeps distinct ask.call (records ask List.mem_cons_self)
    have later := ih kept (Ledger.perform_distinct distinct backend.batchPolicy ask.call)
      fun other member => records other (List.mem_cons_of_mem ask member)
    rw [session_cons, Ledger.session_cons, answered, later, policy]

/-- Every backend that begins empty answers every list of calls as the ledger does that
keeps, of a batch that fails, what the backend keeps. If no batch fails, every other
backend that begins empty gives the same answers. -/
theorem newborn_backends_are_one_store {backend : Backend} (newborn : backend.Newborn)
    {asks : List Ask} (records : ∀ ask ∈ asks, ask.aboutRecords = true) :
    (backend.session .roomy asks).1 = (Ledger.empty.session backend.batchPolicy asks).1 ∧
      (BatchesSucceed asks (backend.session .roomy asks).1 →
        ∀ other : Backend, other.Newborn →
          (other.session .roomy asks).1 = (backend.session .roomy asks).1) := by
  have own := session_as_ledger (newborn_keeps newborn) Ledger.empty_distinct asks records
  refine ⟨own, ?_⟩
  intro succeed other otherNewborn
  have others := session_as_ledger (newborn_keeps otherNewborn) Ledger.empty_distinct asks records
  rw [own] at succeed
  rw [own, others, Ledger.session_policy succeed other.batchPolicy]

/-- A deleted record still owns its URL, so the batch fails at its second entry. The journal
keeps the first. -/
def refusedBatch : List Ask :=
  [⟨.put ⟨"a"⟩ "http://a" "u1"⟩, ⟨.markDeleted [⟨"a"⟩, ⟨"b"⟩] "u1"⟩,
    ⟨.putBatch [⟨⟨"b"⟩, "http://b"⟩, ⟨⟨"b"⟩, "http://a"⟩] "u2"⟩,
    ⟨.get ⟨"b"⟩⟩, ⟨.stats⟩]

theorem newborn_journal_refused_batch :
    (Backend.journal "links.json" ⟨[], Index.empty⟩).Newborn ∧
      (∀ ask ∈ refusedBatch, ask.aboutRecords = true) ∧
      ((Backend.journal "links.json" ⟨[], Index.empty⟩).session .roomy refusedBatch).1 =
        [@Reply.mk Unit (.ok ()), @Reply.mk Unit (.ok ()),
          @Reply.mk Unit (.error (.conflict "http://a")),
          @Reply.mk (Option String) (.ok (some "http://b")),
          @Reply.mk StoreStats (.ok ⟨2, 2⟩)] := by
  have newborn : (Backend.journal "links.json" ⟨[], Index.empty⟩).Newborn := rfl
  have records : ∀ ask ∈ refusedBatch, ask.aboutRecords = true := by
    simp [refusedBatch, Ask.aboutRecords, StoreCall.method]
  refine ⟨newborn, records, ?_⟩
  rw [(newborn_backends_are_one_store newborn records).1]
  rfl

end Backend

end ShortLinks
