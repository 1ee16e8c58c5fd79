import ShortLinks.Proofs.BatchFailure
import ShortLinks.Proofs.Tombstones
import ShortLinks.Proofs.Traffic

/-!
# Batches end to end

The service draws a code for each item of a batch, pairs them in order, and makes one call. If the
call succeeds every item has its own code and URL from then on, and the owner's list has grown by
just these records. If it fails the store keeps the items before the first that fails, or none; in
either case the records that were there stand as they stood, and so does every link of them.
-/

namespace ShortLinks

set_option autoImplicit false

theorem Row.ofRecord_injective : Function.Injective Row.ofRecord := by
  rintro ⟨⟨code⟩, url, owner, deleted⟩ ⟨⟨code'⟩, url', owner', deleted'⟩ same
  simp only [Row.ofRecord, Row.mk.injEq, Cell.ofText_inj, Cell.integer.injEq] at same
  rcases same with ⟨rfl, rfl, rfl, flag⟩
  cases deleted <;> cases deleted' <;> simp_all

namespace Backend

variable {backend : Backend} {ledger : Ledger} {disk : Disk} {owner : String}

theorem stores_unique {first second : Ledger} (one : backend.Stores first)
    (other : backend.Stores second) : first = second := by
  cases backend with
  | memory index => exact Ledger.index_injective (one.symm.trans other)
  | journal path held => exact Ledger.index_injective (one.symm.trans other)
  | database held =>
    rcases one with ⟨inserts, updates, connected, rfl⟩
    rcases other with ⟨_, _, _, same⟩
    have rows := congrArg (fun held => held.file.table.map LinkTable.rows) same
    simp only [Ledger.databaseUnder, Ledger.tableUnder, Option.map_some, Option.some.injEq] at rows
    exact congrArg Ledger.mk (List.map_injective_iff.2 Row.ofRecord_injective rows)

theorem genuine_behind {α : Type} (genuine : backend.Genuine ledger) {call : StoreCall α}
    {after : Ledger} (stores : (backend.perform disk call).backend.Stores after) :
    (backend.perform disk call).backend.Genuine after := by
  rcases genuine_perform genuine disk call with ⟨later, _, kept⟩
  rw [stores_unique stores kept.stores]
  exact kept

theorem answer_open {α : Type} {call : StoreCall α} (opened : backend.Open)
    (asks : call.writer? = none) (records : (Ask.mk call).aboutRecords = true) :
    (backend.perform disk call).answer = backend.tells call := by
  cases backend with
  | memory index => rfl
  | journal path held =>
    cases call with
    | put | putBatch | markDeleted => cases asks
    | _ => rfl
  | database held =>
    have connected : held.connected = true := opened
    rcases held with ⟨file, _⟩
    cases connected
    rfl

theorem get_open (genuine : backend.Genuine ledger) (opened : backend.Open) (disk : Disk)
    (code : ShortCode) : (backend.perform disk (.get code)).answer = ledger.get code :=
  (answer_open opened rfl rfl).trans (tells_get genuine code)

theorem findUrl_open (genuine : backend.Genuine ledger) (opened : backend.Open) (disk : Disk)
    (url : String) : (backend.perform disk (.findUrl url)).answer = .ok (ledger.findUrl url) :=
  (answer_open opened rfl rfl).trans (tells_findUrl genuine url)

theorem list_open (genuine : backend.Genuine ledger) (opened : backend.Open) (disk : Disk)
    (owner : String) :
    (backend.perform disk (.listByOwner owner)).answer = .ok (ledger.listByOwner owner) :=
  (answer_open opened rfl rfl).trans (tells_listByOwner genuine owner)

theorem open_withEntries (opened : backend.Open) (entries : List BatchEntry) :
    (backend.withEntries ledger owner entries).Open := by
  cases backend <;> exact opened

end Backend

/-- The answer has given out a link of the code. -/
inductive GivesOut (code : ShortCode) : {α : Type} → StoreCall α → Except StorageError α → Prop
  | put (url owner : String) : GivesOut code (.put code url owner) (.ok ())
  | putBatch {entries : List BatchEntry} (owner : String)
      (listed : code ∈ entries.map BatchEntry.code) :
      GivesOut code (.putBatch entries owner) (.ok ())
  | findUrl (url : String) : GivesOut code (.findUrl url) (.ok (some code))
  | listByOwner (owner : String) {records : List LinkRecord}
      (listed : code ∈ records.map LinkRecord.code) :
      GivesOut code (.listByOwner owner) (.ok records)

/-- One of these steps was a call that has given out a link of the code. -/
def Desk.GaveOut (code : ShortCode) (deeds : List Deed) (desk : Desk) : Prop :=
  ∃ early disk ask late between past, deeds = early ++ .call disk ask :: late ∧
    Desk.deeds? early desk = some (between, past) ∧
    GivesOut code ask.call (between.backend.perform disk ask.call).answer

namespace Ledger

variable {ledger after : Ledger} {made : List Ask}

def codes (ledger : Ledger) : List ShortCode := ledger.records.map LinkRecord.code

theorem codes_of_ages (ages : ledger.Ages made after) {code : ShortCode}
    (known : code ∈ ledger.codes) : code ∈ after.codes := by
  rcases ages with ⟨change, added, reached, aged, _⟩
  rcases List.mem_map.1 known with ⟨record, held, rfl⟩
  apply List.mem_map.2
  refine ⟨change record, ?_, (aged record).code⟩
  rw [reached]
  exact List.mem_append_left _ (List.mem_map_of_mem held)

theorem get_withEntries {code : ShortCode} (known : code ∈ ledger.codes) (owner : String)
    (entries : List BatchEntry) :
    (ledger.withEntries owner entries).get code = ledger.get code := by
  rcases List.mem_map.1 known with ⟨record, held, same⟩
  have found : (ledger.records.find? (·.code == code)).isSome = true := by
    rw [List.find?_isSome]
    exact ⟨record, held, beq_iff_eq.2 same⟩
  rcases Option.isSome_iff_exists.1 found with ⟨first, same⟩
  simp only [get, withEntries, List.find?_append, same, Option.some_or]

theorem list_withEntries (ledger : Ledger) (owner name : String) (entries : List BatchEntry) :
    (ledger.withEntries owner entries).listByOwner name =
      ledger.listByOwner name ++
        if name = owner then entries.map fun entry => ⟨entry.code, entry.url, owner, false⟩
        else [] := by
  rw [listByOwner, withEntries, List.filter_append, listByOwner, List.filter_map]
  congr 1
  split
  · rename_i own
    rw [List.filter_eq_self.2]
    intro entry _
    simp [own]
  · rename_i other
    rw [List.filter_eq_nil_iff.2, List.map_nil]
    intro entry _
    simpa using Ne.symm other

end Ledger

namespace Backend

variable {backend : Backend} {ledger : Ledger} {disk : Disk} {code : ShortCode}

theorem open_of_given {α : Type} {call : StoreCall α} {answer : Except StorageError α}
    (given : GivesOut code call answer)
    (answered : (backend.perform disk call).answer = answer) : backend.Open := by
  cases backend with
  | memory index => trivial
  | journal path held => trivial
  | database held =>
    cases connected : held.connected with
    | true => exact connected
    | false =>
      exfalso
      cases given <;>
        simp [perform, performDatabase, Database.put, Database.attempt, Database.putTogether,
          Database.findUrl, Database.listByOwner, Database.table, connected, Bind.bind,
          Except.bind] at answered

theorem given_known {α : Type} {call : StoreCall α} {answer : Except StorageError α}
    (genuine : backend.Genuine ledger) (given : GivesOut code call answer)
    (answered : (backend.perform disk call).answer = answer) :
    ∃ after, (backend.perform disk call).backend.Genuine after ∧ code ∈ after.codes := by
  have opened := open_of_given given answered
  cases given with
  | put url owner =>
    have put : tryPut disk owner backend (.plain ⟨code, url⟩) =
        (.ok (), (backend.perform disk (.put code url owner)).backend) := by
      rw [← answered]
      rfl
    have stored := (try_put_stored genuine.stores put).1
    exact ⟨_, genuine_behind genuine stored, by simp [Ledger.codes, Ledger.extend, Trial.plain]⟩
  | @putBatch entries owner listed =>
    have ends := (ends_batches genuine.stores owner).batches opened disk entries
    rw [answered] at ends
    generalize reached : (backend.perform disk (.putBatch entries owner)).backend = after at ends
    generalize asked : entries.map Trial.plain = trials at ends
    cases ends with
    | stored all holds =>
      have stored := (put_all_stored genuine.stores all).1
      rw [← asked, ← reached, List.map_map] at stored
      rw [← reached]
      refine ⟨_, genuine_behind genuine stored, ?_⟩
      apply List.mem_map.2
      rcases List.mem_map.1 listed with ⟨entry, member, same⟩
      refine ⟨⟨entry.code, entry.url, owner, false⟩, ?_, same⟩
      apply List.mem_append_right
      exact List.mem_map.2 ⟨entry, List.mem_map.2 ⟨entry, member, rfl⟩, rfl⟩
  | findUrl url =>
    rw [findUrl_open genuine opened] at answered
    rcases Ledger.record_of_find_url (Except.ok.inj answered) with ⟨record, held, _, same⟩
    rcases genuine_perform genuine disk (.findUrl url) with ⟨after, ages, kept⟩
    exact ⟨after, kept, Ledger.codes_of_ages ages (List.mem_map.2 ⟨record, held, same⟩)⟩
  | listByOwner owner listed =>
    rw [list_open genuine opened] at answered
    rw [← Except.ok.inj answered] at listed
    rcases List.mem_map.1 listed with ⟨record, held, same⟩
    rcases genuine_perform genuine disk (.listByOwner owner) with ⟨after, ages, kept⟩
    refine ⟨after, kept, Ledger.codes_of_ages ages (List.mem_map.2 ⟨record, ?_, same⟩)⟩
    exact List.mem_of_mem_filter held

end Backend

namespace Desk

/-- A code whose link was given out is known from then on. -/
theorem gave_out_known {settings : DeletionSettings} {first : Backend}
    (initial : first.Initial) {deeds : List Deed} {desk : Desk} {made : List Ask}
    (reached : deeds? deeds ⟨.start settings, first⟩ = some (desk, made)) {code : ShortCode}
    (gave : GaveOut code deeds ⟨.start settings, first⟩) {ledger : Ledger}
    (stores : desk.backend.Stores ledger) : code ∈ ledger.codes := by
  rcases gave with ⟨early, disk, ask, late, between, past, rfl, before, given⟩
  rcases take_all_append reached with ⟨same, _, _, front, back, rfl⟩
  obtain ⟨rfl, rfl⟩ := Prod.mk.inj (Option.some.inj (before.symm.trans front))
  rcases take_all_cons back with ⟨called, _, _, stepped, later, rfl⟩
  cases stepped
  rcases Backend.genuine_initial initial with ⟨origin, began⟩
  rcases genuine_deeds began before with ⟨held, _, genuine⟩
  rcases Backend.given_known genuine given rfl with ⟨after, kept, known⟩
  rcases genuine_deeds kept later with ⟨last, ages, settled⟩
  rw [Backend.stores_unique stores settled.stores]
  exact Ledger.codes_of_ages ages known

end Desk

namespace Backend

/-- The service answers an inquiry while nobody else comes to the store. -/
def serve {α : Type} (disk : Disk) (backend : Backend) (inquiry : Inquiry α) :
    Except ServiceError α × Backend :=
  inquiry.run
    (fun call state => ((state.perform disk call).answer, (state.perform disk call).backend))
    backend

/-- The list of the owner has grown by live records of the entries, and no other list has
changed. -/
def Gained (disk : Disk) (owner : String) (before : Backend) (entries : List BatchEntry)
    (after : Backend) : Prop :=
  ∀ name, ∃ old, (before.perform disk (.listByOwner name)).answer = .ok old ∧
    (after.perform disk (.listByOwner name)).answer =
      .ok (old ++
        if name = owner then entries.map fun entry => ⟨entry.code, entry.url, owner, false⟩
        else [])

def drawnEntries (codes : List ShortCode) (items : List BatchItem) : List BatchEntry :=
  codes.zipWith (fun code item => ⟨code, item.url⟩) items

structure BatchStored (disk : Disk) (baseUrl owner : String) (codes : List ShortCode)
    (items : List BatchItem) (before : Backend) (links : List BatchLink) (after : Backend) :
    Prop where
  length : links.length = items.length
  each : ∀ (position : Nat) (code : ShortCode) (item : BatchItem),
    codes[position]? = some code → items[position]? = some item →
      links[position]? = some ⟨item.correlation, code.linkUnder baseUrl⟩ ∧
        (after.serve disk (.resolve code)).1 = .ok (some item.url) ∧
        (after.perform disk (.findUrl item.url)).answer = .ok (some code)
  gained : before.Gained disk owner (drawnEntries codes items) after

/-- An item has failed: the store has gained nothing, or the items before it and no more. No link
that was given out resolves otherwise. -/
structure BatchRefused (disk : Disk) (owner : String) (given : ShortCode → Prop)
    (entries : List BatchEntry) (before : Backend) (cause : ServiceError) (after : Backend) :
    Prop where
  links : ∀ code, given code →
    (after.serve disk (.resolve code)).1 = (before.serve disk (.resolve code)).1
  undone : before.batchPolicy = .allOrNothing → after = before
  leading : before.batchPolicy = .keepLeading → ∃ front entry later error,
    entries = front ++ entry :: later ∧
      PutAll disk owner before (front.map Trial.plain) after ∧
      (after.perform disk (.put entry.code entry.url owner)).answer = .error error ∧
      cause = .ofStorage error ∧ before.Gained disk owner front after

variable {backend after : Backend} {ledger : Ledger} {disk : Disk} {baseUrl owner : String}
  {codes : List ShortCode} {items : List BatchItem}

theorem serve_batch (filled : items ≠ []) (disk : Disk) (backend : Backend) (baseUrl owner : String)
    (codes : List ShortCode) :
    backend.serve disk (.shortenBatch baseUrl codes items owner) =
      (((backend.perform disk (.putBatch (drawnEntries codes items) owner)).answer.map fun _ =>
          codes.zipWith (fun code item => BatchLink.mk item.correlation (code.linkUnder baseUrl))
            items).mapError .ofStorage,
        (backend.perform disk (.putBatch (drawnEntries codes items) owner)).backend) := by
  cases items with
  | nil => exact absurd rfl filled
  | cons item items => rfl

theorem serve_resolve (disk : Disk) (backend : Backend) (code : ShortCode) :
    (backend.serve disk (.resolve code)).1 =
      (backend.perform disk (.get code)).answer.mapError .ofStorage := by
  simp only [serve, Inquiry.resolve, Inquiry.ofCall, Dialogue.run]
  cases (backend.perform disk (.get code)).answer <;> rfl

theorem gained_of_withEntries (genuine : backend.Genuine ledger) (opened : backend.Open)
    {entries : List BatchEntry} (kept : after.Genuine (ledger.withEntries owner entries))
    (still : after.Open) : backend.Gained disk owner entries after := by
  intro name
  refine ⟨ledger.listByOwner name, list_open genuine opened disk name, ?_⟩
  rw [list_open kept still, Ledger.list_withEntries]

theorem batch_stored (genuine : backend.Genuine ledger) (opened : backend.Open)
    (drawn : codes.length = items.length)
    (kept : after.Genuine (ledger.withEntries owner (drawnEntries codes items)))
    (still : after.Open) :
    BatchStored disk baseUrl owner codes items backend
      (codes.zipWith (fun code item => ⟨item.correlation, code.linkUnder baseUrl⟩) items)
      after := by
  refine ⟨?_, ?_, gained_of_withEntries genuine opened kept still⟩
  · rw [List.length_zipWith, drawn, Nat.min_self]
  · intro position code item own about
    have listed : (⟨code, item.url⟩ : BatchEntry) ∈ drawnEntries codes items := by
      apply List.mem_of_getElem? (i := position)
      rw [drawnEntries, List.getElem?_zipWith, own, about]
    have held : (⟨code, item.url, owner, false⟩ : LinkRecord) ∈
        (ledger.withEntries owner (drawnEntries codes items)).records :=
      List.mem_append_right _ (List.mem_map.2 ⟨_, listed, rfl⟩)
    refine ⟨?_, ?_, ?_⟩
    · rw [List.getElem?_zipWith, own, about]
    · rw [serve_resolve, get_open kept still, Ledger.get,
        Ledger.find_code_of_mem kept.distinct held]
      rfl
    · rw [findUrl_open kept still, Ledger.find_url_of_mem kept.distinct held]

/-- The store is left as it was, or with the entries before the one that failed. -/
theorem batch_refused (genuine : backend.Genuine ledger) (opened : backend.Open)
    {given : ShortCode → Prop} (known : ∀ code, given code → code ∈ ledger.codes)
    {front later : List BatchEntry} {entry : BatchEntry} {between : Backend} {error : StorageError}
    (before : PutAll disk owner backend (front.map Trial.plain) between)
    (holds : between = backend.withEntries ledger owner front)
    (fails : (between.perform disk (.put entry.code entry.url owner)).answer = .error error)
    (kept : backend.batchPolicy = .keepLeading →
      between.Genuine (ledger.withEntries owner front)) :
    BatchRefused disk owner given (front ++ entry :: later) backend (.ofStorage error)
      (backend.leaves between) := by
  have still : between.Open := by
    rw [holds]
    exact open_withEntries opened front
  cases policy : backend.batchPolicy with
  | keepLeading =>
    have left : backend.leaves between = between := by rw [leaves, policy]
    rw [left]
    have settled := kept policy
    refine ⟨?_, by simp [policy], ?_⟩
    · intro code gave
      rw [serve_resolve, serve_resolve, get_open settled still, get_open genuine opened,
        Ledger.get_withEntries (known code gave)]
    · intro _
      exact ⟨front, entry, later, error, rfl, before, fails, rfl,
        gained_of_withEntries genuine opened settled still⟩
  | allOrNothing =>
    have left : backend.leaves between = backend := by rw [leaves, policy]
    rw [left]
    exact ⟨fun _ _ => rfl, fun _ => rfl, by simp [policy]⟩

theorem map_plain_append {entries : List BatchEntry} {front later : List Trial} {trial : Trial}
    (same : entries.map Trial.plain = front ++ trial :: later) :
    ∃ before entry behind, entries = before ++ entry :: behind ∧
      front = before.map Trial.plain ∧ trial = .plain entry := by
  rcases List.map_eq_append_iff.1 same with ⟨before, rest, rfl, rfl, tail⟩
  rcases List.map_eq_cons_iff.1 tail with ⟨entry, behind, rfl, rfl, _⟩
  exact ⟨before, entry, behind, rfl, rfl, rfl⟩

theorem entries_plain (entries : List BatchEntry) :
    (entries.map Trial.plain).map Trial.entry = entries := by
  rw [List.map_map]
  exact List.map_id entries

/-- How the service answers a batch. -/
def BatchAnswered (disk : Disk) (baseUrl owner : String) (given : ShortCode → Prop)
    (codes : List ShortCode) (items : List BatchItem) (before : Backend) :
    Except ServiceError (List BatchLink) × Backend → Prop
  | (.ok links, after) => BatchStored disk baseUrl owner codes items before links after
  | (.error cause, after) =>
      BatchRefused disk owner given (drawnEntries codes items) before cause after

theorem batch_answered (genuine : backend.Genuine ledger) {given : ShortCode → Prop}
    (known : ∀ code, given code → code ∈ ledger.codes) (filled : items ≠ [])
    (drawn : codes.length = items.length) (disk : Disk) (baseUrl owner : String) :
    BatchAnswered disk baseUrl owner given codes items backend
      (backend.serve disk (.shortenBatch baseUrl codes items owner)) := by
  rw [serve_batch filled]
  have behind := @genuine_behind _ _ disk _ genuine (.putBatch (drawnEntries codes items) owner)
  have ends := ends_batches genuine.stores owner
  by_cases opened : backend.Open
  · have ended := ends.batches opened disk (drawnEntries codes items)
    generalize asked : (drawnEntries codes items).map Trial.plain = trials at ended
    generalize (backend.perform disk (.putBatch (drawnEntries codes items) owner)).answer =
      answer at ended
    generalize (backend.perform disk (.putBatch (drawnEntries codes items) owner)).backend =
      after at ended behind
    cases ended with
    | stored all holds =>
      have stored := (put_all_stored genuine.stores all).1
      rw [← asked, entries_plain] at stored holds
      apply batch_stored genuine opened drawn (behind stored)
      rw [holds]
      exact open_withEntries opened _
    | @failed front later trial between error before holds fails =>
      rcases map_plain_append asked with ⟨first, entry, rest, split, rfl, rfl⟩
      have stored := (put_all_stored genuine.stores before).1
      rw [entries_plain] at stored holds
      simp only [BatchAnswered, Except.map, Except.mapError, split]
      apply batch_refused genuine opened known before holds (congrArg Prod.fst fails)
      intro policy
      rw [leaves, policy] at behind
      exact behind stored
  · rw [ends.closed opened]
    refine ⟨fun _ _ => rfl, fun _ => rfl, ?_⟩
    intro policy
    cases backend with
    | memory | journal => exact absurd trivial opened
    | database => cases policy

end Backend

theorem CodeSupply.drawMany_length (count : Nat) (supply : CodeSupply) :
    (supply.drawMany count).1.length = count := by
  induction count generalizing supply with
  | zero => rfl
  | succ count ih => exact congrArg Nat.succ (ih _)

namespace Desk

/-- Whatever a store has been through, and whatever codes are drawn: a batch that is not empty is
stored item by item under these codes, or it is refused at its first item that fails. A service
draws one code for each item, in order, and has the supply behind them for what comes next. -/
theorem batch_is_stored_or_refused {settings : DeletionSettings} {first : Backend}
    (initial : first.Initial) {deeds : List Deed} {desk : Desk} {made : List Ask}
    (reached : deeds? deeds ⟨.start settings, first⟩ = some (desk, made))
    {codes : List ShortCode} {items : List BatchItem} (filled : items ≠ [])
    (drawn : codes.length = items.length) (disk : Disk) (baseUrl owner : String) :
    Backend.BatchAnswered disk baseUrl owner
        (fun code => GaveOut code deeds ⟨.start settings, first⟩) codes items desk.backend
        (desk.backend.serve disk (.shortenBatch baseUrl codes items owner)) ∧
      ∀ shortener : Shortener,
        let (drawn, behind) := shortener.codes.drawMany items.length
        drawn.length = items.length ∧ shortener.shortenBatch items owner =
          (.shortenBatch shortener.baseUrl drawn items owner, { shortener with codes := behind }) := by
  rcases Backend.genuine_initial initial with ⟨origin, began⟩
  rcases genuine_deeds began reached with ⟨ledger, _, genuine⟩
  constructor
  · apply Backend.batch_answered genuine _ filled drawn
    intro code gave
    exact gave_out_known initial reached gave genuine.stores
  · intro shortener
    exact ⟨CodeSupply.drawMany_length items.length shortener.codes, rfl⟩

/-- The code drawn for the second of three items has been given out before. -/
def redrawn : List ShortCode := [⟨"b"⟩, ⟨"a"⟩, ⟨"d"⟩]

def wanted : List BatchItem := [⟨"1", "http://b"⟩, ⟨"1", "http://c"⟩, ⟨"2", "http://d"⟩]

def seeded : List Deed := [.call .roomy ⟨.put ⟨"a"⟩ "http://a" "u1"⟩]

theorem repeated_code_refuses_rest :
    ∃ desk made,
      deeds? seeded ⟨.start ⟨1, 1⟩, .memory Index.empty⟩ = some (desk, made) ∧
      GaveOut ⟨"a"⟩ seeded ⟨.start ⟨1, 1⟩, .memory Index.empty⟩ ∧
      wanted ≠ [] ∧ redrawn.length = wanted.length ∧
      Backend.BatchRefused .roomy "u2"
        (fun code => GaveOut code seeded ⟨.start ⟨1, 1⟩, .memory Index.empty⟩)
        (Backend.drawnEntries redrawn wanted) desk.backend (.codeCollision "a")
        (desk.backend.serve .roomy (.shortenBatch "http://s" redrawn wanted "u2")).2 := by
  have initial : (Backend.memory Index.empty).Initial := rfl
  have filled : wanted ≠ [] := by simp [wanted]
  have drawn : redrawn.length = wanted.length := rfl
  have gave : GaveOut ⟨"a"⟩ seeded ⟨.start ⟨1, 1⟩, .memory Index.empty⟩ :=
    ⟨[], .roomy, ⟨.put ⟨"a"⟩ "http://a" "u1"⟩, [], _, _, rfl, rfl, .put _ _⟩
  refine ⟨_, _, rfl, gave, filled, drawn, ?_⟩
  exact (batch_is_stored_or_refused initial
    (rfl : deeds? seeded ⟨.start ⟨1, 1⟩, .memory Index.empty⟩ = _) filled drawn .roomy
    "http://s" "u2").1

end Desk

end ShortLinks
