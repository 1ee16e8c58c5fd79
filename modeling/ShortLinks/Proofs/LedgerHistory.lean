import ShortLinks.Proofs.OneStore

/-!
# What time does to a ledger

A ledger only grows. A record that is in it stays, in its place, under its code and with its URL
and its owner; a call may set its tombstone and may put records behind it. So a URL once stored
answers with the same code forever. A batch that succeeds found all its URLs and codes free.
-/

namespace ShortLinks

set_option autoImplicit false

/-- What never changes of a record. -/
structure Bond where
  code : ShortCode
  url : String
  owner : String
  deriving DecidableEq, Repr

def LinkRecord.bond (record : LinkRecord) : Bond := ⟨record.code, record.url, record.owner⟩

namespace Ledger

variable {ledger before after next : Ledger}

def bonds (ledger : Ledger) : List Bond := ledger.records.map LinkRecord.bond

def urls (ledger : Ledger) : List String := ledger.records.map LinkRecord.url

/-- The later ledger holds the records of the earlier one in front, tombstones apart. -/
def Grows (before after : Ledger) : Prop := before.bonds <+: after.bonds

theorem grows_refl (ledger : Ledger) : ledger.Grows ledger := List.prefix_refl _

theorem grows_of_bonds (same : after.bonds = before.bonds) : before.Grows after :=
  ⟨[], by rw [List.append_nil, same]⟩

theorem grows_trans (first : before.Grows after) (second : after.Grows next) :
    before.Grows next := List.IsPrefix.trans first second

theorem find_url_of_bonds (ledger : Ledger) (url : String) :
    ledger.findUrl url = (ledger.bonds.find? (·.url == url)).map Bond.code := by
  simp only [findUrl, bonds, List.find?_map, Option.map_map]
  rfl

theorem find_url_grows (grows : before.Grows after) {url : String} {code : ShortCode}
    (found : before.findUrl url = some code) : after.findUrl url = some code := by
  rw [find_url_of_bonds, Option.map_eq_some_iff] at found ⊢
  rcases found with ⟨bond, held, same⟩
  exact ⟨bond, List.IsPrefix.find?_eq_some grows held, same⟩

theorem urls_grow (grows : before.Grows after) {url : String} (stored : url ∈ before.urls) :
    url ∈ after.urls := by
  have same : ∀ ledger : Ledger, ledger.urls = ledger.bonds.map Bond.url := by
    intro ledger
    rw [urls, bonds, List.map_map]
    rfl
  rw [same] at stored ⊢
  exact (List.IsPrefix.map Bond.url grows).subset stored

theorem find_url_of_mem (distinct : ledger.Distinct) {record : LinkRecord}
    (held : record ∈ ledger.records) : ledger.findUrl record.url = some record.code := by
  rw [findUrl, find_of_nodup_map distinct.urls held]
  rfl

theorem record_of_find_url {url : String} {code : ShortCode}
    (found : ledger.findUrl url = some code) :
    ∃ record ∈ ledger.records, record.url = url ∧ record.code = code := by
  rcases Option.map_eq_some_iff.1 found with ⟨record, held, same⟩
  exact ⟨record, List.mem_of_find?_eq_some held, by simpa using List.find?_some held, same⟩

theorem mem_urls_of_find_url {url : String} {code : ShortCode}
    (found : ledger.findUrl url = some code) : url ∈ ledger.urls := by
  rcases record_of_find_url found with ⟨record, held, rfl, _⟩
  exact List.mem_map_of_mem held

theorem find_url_of_mem_urls (distinct : ledger.Distinct) {url : String}
    (stored : url ∈ ledger.urls) : ∃ code, ledger.findUrl url = some code := by
  rcases List.mem_map.1 stored with ⟨record, held, rfl⟩
  exact ⟨record.code, find_url_of_mem distinct held⟩

theorem url_of_code (distinct : ledger.Distinct) {first second : String} {code : ShortCode}
    (one : ledger.findUrl first = some code) (other : ledger.findUrl second = some code) :
    first = second := by
  rcases record_of_find_url one with ⟨record, held, rfl, rfl⟩
  rcases record_of_find_url other with ⟨twin, found, rfl, same⟩
  rw [List.inj_on_of_nodup_map distinct.codes found held same]

theorem extend_grows (ledger : Ledger) (code : ShortCode) (url owner : String) :
    ledger.Grows (ledger.extend code url owner) := by
  unfold Grows bonds extend
  rw [List.map_append]
  exact List.prefix_append _ _

theorem put_cases (ledger : Ledger) (code : ShortCode) (url owner : String) :
    (∃ error, ledger.put code url owner = (.error error, ledger) ∧
        (error = .conflict url ∧ url ∈ ledger.urls ∨ error = .codeCollision code.text)) ∨
      ledger.refusal? code url = none ∧
        ledger.put code url owner = (.ok (), ledger.extend code url owner) := by
  unfold put
  cases refused : ledger.refusal? code url with
  | none => exact .inr ⟨rfl, rfl⟩
  | some error =>
    refine .inl ⟨error, rfl, ?_⟩
    unfold refusal? at refused
    split at refused
    · rename_i taken
      left
      refine ⟨(Option.some.inj refused).symm, ?_⟩
      simpa [urls] using taken
    · split at refused
      · exact .inr (Option.some.inj refused).symm
      · cases refused

theorem put_grows (ledger : Ledger) (code : ShortCode) (url owner : String) :
    ledger.Grows (ledger.put code url owner).2 := by
  rcases put_cases ledger code url owner with ⟨error, refused, _⟩ | ⟨_, stored⟩
  · rw [refused]
    exact grows_refl ledger
  · rw [stored]
    exact extend_grows ledger code url owner

theorem putLeading_grows (owner : String) (entries : List BatchEntry) (ledger : Ledger) :
    ledger.Grows (putLeading owner entries ledger).2 := by
  induction entries generalizing ledger with
  | nil => exact grows_refl ledger
  | cons entry entries ih =>
    have first := put_grows ledger entry.code entry.url owner
    unfold putLeading
    cases stored : ledger.put entry.code entry.url owner with
    | mk answer next =>
      rw [stored] at first
      cases answer with
      | error error => exact first
      | ok done => exact grows_trans first (ih next)

theorem putBatch_grows (ledger : Ledger) (policy : BatchPolicy) (entries : List BatchEntry)
    (owner : String) : ledger.Grows (ledger.putBatch policy entries owner).2 := by
  have leading := putLeading_grows owner entries ledger
  cases policy with
  | keepLeading => exact leading
  | allOrNothing =>
    simp only [putBatch, putTogether]
    cases stored : putLeading owner entries ledger with
    | mk answer next =>
      rw [stored] at leading
      cases answer with
      | error error => exact grows_refl ledger
      | ok done => exact leading

theorem markDeleted_bonds (ledger : Ledger) (codes : List ShortCode) (owner : String) :
    (ledger.markDeleted codes owner).bonds = ledger.bonds := by
  unfold bonds
  rw [markDeleted_records, List.map_map]
  apply List.map_congr_left
  intro record _
  simp only [Function.comp_apply, LinkRecord.bond, buried_code, buried_url, buried_owner]

theorem perform_grows {α : Type} (ledger : Ledger) (policy : BatchPolicy) (call : StoreCall α) :
    ledger.Grows (ledger.perform policy call).2 := by
  cases call with
  | put code url owner => exact put_grows ledger code url owner
  | putBatch entries owner => exact putBatch_grows ledger policy entries owner
  | markDeleted codes owner => exact grows_of_bonds (ledger.markDeleted_bonds codes owner)
  | _ => exact grows_refl ledger

theorem find_url_extend (distinct : ledger.Distinct) {code : ShortCode} {url : String}
    (free : ledger.refusal? code url = none) (owner : String) :
    (ledger.extend code url owner).findUrl url = some code := by
  have held : (⟨code, url, owner, false⟩ : LinkRecord) ∈
      (ledger.extend code url owner).records := by simp [extend]
  exact find_url_of_mem (extend_distinct distinct free) held

theorem putLeading_stored {owner : String} {entries : List BatchEntry}
    (stored : putLeading owner entries ledger = (.ok (), next)) :
    next.records =
      ledger.records ++ entries.map fun entry => ⟨entry.code, entry.url, owner, false⟩ := by
  induction entries generalizing ledger with
  | nil =>
    cases stored
    simp
  | cons entry entries ih =>
    unfold putLeading at stored
    rcases put_cases ledger entry.code entry.url owner with ⟨error, refused, _⟩ | ⟨_, first⟩
    · rw [refused] at stored
      cases stored
    · rw [first] at stored
      rw [ih stored, extend, List.append_assoc]
      rfl

theorem putBatch_stored {policy : BatchPolicy} {owner : String} {entries : List BatchEntry}
    (stored : ledger.putBatch policy entries owner = (.ok (), next)) :
    next.records =
      ledger.records ++ entries.map fun entry => ⟨entry.code, entry.url, owner, false⟩ := by
  cases policy with
  | keepLeading => exact putLeading_stored stored
  | allOrNothing =>
    simp only [putBatch, putTogether] at stored
    cases leading : putLeading owner entries ledger with
    | mk answer reached =>
      rw [leading] at stored
      cases answer with
      | error error => cases stored
      | ok done =>
        cases stored
        exact putLeading_stored leading

theorem putBatch_fresh (distinct : ledger.Distinct) {policy : BatchPolicy} {owner : String}
    {entries : List BatchEntry}
    (stored : ledger.putBatch policy entries owner = (.ok (), next)) :
    (entries.map BatchEntry.url).Nodup ∧ (∀ entry ∈ entries, entry.url ∉ ledger.urls) ∧
      ∀ entry ∈ entries, next.findUrl entry.url = some entry.code := by
  have records := putBatch_stored stored
  have distinctNext : next.Distinct := by
    have kept := putBatch_distinct distinct policy entries owner
    rw [stored] at kept
    exact kept
  have apart := distinctNext.urls
  rw [records, List.map_append, List.map_map] at apart
  rcases List.nodup_append.1 apart with ⟨_, once, fresh⟩
  refine ⟨once, ?_, ?_⟩
  · intro entry member known
    exact fresh entry.url known entry.url (List.mem_map_of_mem (f := BatchEntry.url) member) rfl
  · intro entry member
    have held : ⟨entry.code, entry.url, owner, false⟩ ∈ next.records := by
      rw [records]
      exact List.mem_append_right _ (List.mem_map.2 ⟨entry, member, rfl⟩)
    exact find_url_of_mem distinctNext held

end Ledger

namespace Backend

/-- The backend keeps the ledger, and the ledger is one that a store can come to. -/
structure Holds (backend : Backend) (ledger : Ledger) : Prop where
  keeps : backend.Keeps ledger
  distinct : ledger.Distinct

theorem newborn_holds {backend : Backend} (newborn : backend.Newborn) :
    backend.Holds Ledger.empty := ⟨newborn_keeps newborn, Ledger.empty_distinct⟩

theorem holds_perform {α : Type} {backend : Backend} {ledger : Ledger}
    (holds : backend.Holds ledger) (call : StoreCall α)
    (records : (Ask.mk call).aboutRecords = true) :
    (backend.perform .roomy call).answer = (ledger.perform backend.batchPolicy call).1 ∧
      (backend.perform .roomy call).backend.Holds (ledger.perform backend.batchPolicy call).2 := by
  have kept := perform_as_ledger holds.keeps holds.distinct call records
  exact ⟨kept.1, kept.2.2, Ledger.perform_distinct holds.distinct backend.batchPolicy call⟩

end Backend

end ShortLinks
