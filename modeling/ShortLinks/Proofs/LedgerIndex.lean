import ShortLinks.Ledger
import ShortLinks.Index
import Mathlib.Data.List.Nodup

/-!
# The index of a ledger

A ledger determines the three tables: one line for each record, one for each URL, and one
for each owner with the codes in the order of creation. Every operation on these tables
leads to the tables of the ledger after the same operation, so an index that began empty
is always the index of a ledger, and answers as the ledger does.
-/

namespace ShortLinks

set_option autoImplicit false

/-- The recursion of erasing duplicates: behind the first value go those that differ from it. -/
theorem eraseDups_induction {α : Type} [DecidableEq α] {holds : List α → Prop} (nil : holds [])
    (cons : ∀ first rest, holds (rest.filter fun value => !value == first) →
      holds (first :: rest)) (values : List α) : holds values := by
  induction length : values.length using Nat.strongRecOn generalizing values with
  | ind size ih =>
    cases values with
    | nil => exact nil
    | cons first rest =>
      have shorter : (rest.filter fun value => !value == first).length < size := by
        have bound := List.length_filter_le (fun value => !value == first) rest
        simp only [List.length_cons] at length
        omega
      exact cons first rest (ih _ shorter _ rfl)

theorem eraseDups_filter {α : Type} [DecidableEq α] (keep : α → Bool) (values : List α) :
    (values.filter keep).eraseDups = values.eraseDups.filter keep := by
  induction values using eraseDups_induction with
  | nil => simp
  | cons first rest behind =>
    rw [List.eraseDups_cons]
    by_cases kept : keep first = true
    · rw [List.filter_cons_of_pos kept, List.eraseDups_cons, List.filter_cons_of_pos kept,
        ← behind, List.filter_filter, List.filter_filter]
      simp only [Bool.and_comm]
    · rw [List.filter_cons_of_neg kept, List.filter_cons_of_neg kept, ← behind,
        List.filter_filter]
      congr 1
      apply List.filter_congr
      intro value _
      by_cases same : value = first
      · subst same
        simp [kept]
      · simp [same]

theorem eraseDups_map {α β : Type} [DecidableEq α] [DecidableEq β] (rename : α → β)
    (injective : Function.Injective rename) (values : List α) :
    (values.map rename).eraseDups = values.eraseDups.map rename := by
  induction values using eraseDups_induction with
  | nil => simp
  | cons first rest behind =>
    rw [List.map_cons, List.eraseDups_cons, List.eraseDups_cons, List.map_cons, ← behind,
      List.filter_map]
    congr 3
    apply List.filter_congr
    intro value _
    simp [injective.eq_iff]

theorem eraseDups_nodup {α : Type} [DecidableEq α] (values : List α) :
    values.eraseDups.Nodup := by
  induction values using eraseDups_induction with
  | nil => simp
  | cons first rest behind =>
    rw [List.eraseDups_cons, List.nodup_cons]
    exact ⟨by simp [List.mem_eraseDups], behind⟩

theorem find_of_nodup_map {α κ : Type} [DecidableEq κ] {key : α → κ} {values : List α}
    (once : (values.map key).Nodup) {value : α} (held : value ∈ values) :
    values.find? (fun other => key other == key value) = some value := by
  cases found : values.find? (fun other => key other == key value) with
  | none =>
    have missing := List.find?_eq_none.1 found value held
    simp at missing
  | some other =>
    have same : key other = key value := by simpa using List.find?_some found
    rw [List.inj_on_of_nodup_map once (List.mem_of_find?_eq_some found) held same]

theorem find_iff_of_nodup_map {α κ : Type} [DecidableEq κ] {key : α → κ} {values : List α}
    (once : (values.map key).Nodup) {wanted : κ} {value : α} :
    values.find? (fun other => key other == wanted) = some value ↔
      value ∈ values ∧ key value = wanted := by
  constructor
  · intro found
    exact ⟨List.mem_of_find?_eq_some found, by simpa using List.find?_some found⟩
  · rintro ⟨held, rfl⟩
    exact find_of_nodup_map once held

def LinkRecord.entry (record : LinkRecord) : IndexEntry :=
  ⟨record.url, record.owner, record.deleted⟩

namespace Ledger

/-- The owners in the order of their first records. -/
def owners (ledger : Ledger) : List String := (ledger.records.map LinkRecord.owner).eraseDups

def codesOf (ledger : Ledger) (owner : String) : List ShortCode :=
  (ledger.listByOwner owner).map LinkRecord.code

def index (ledger : Ledger) : Index where
  byCode := ⟨ledger.records.map fun record => (record.code, record.entry)⟩
  byUrl := ⟨ledger.records.map fun record => (record.url, record.code)⟩
  byOwner := ⟨ledger.owners.map fun owner => (owner, ledger.codesOf owner)⟩

/-- No two records share a code or a URL. -/
structure Distinct (ledger : Ledger) : Prop where
  codes : (ledger.records.map LinkRecord.code).Nodup
  urls : (ledger.records.map LinkRecord.url).Nodup

theorem empty_distinct : empty.Distinct := ⟨List.nodup_nil, List.nodup_nil⟩

theorem find_code_of_mem {ledger : Ledger} (distinct : ledger.Distinct) {record : LinkRecord}
    (held : record ∈ ledger.records) :
    ledger.records.find? (·.code == record.code) = some record :=
  find_of_nodup_map distinct.codes held

theorem index_find_code (ledger : Ledger) (code : ShortCode) :
    ledger.index.byCode.find? code =
      (ledger.records.find? (·.code == code)).map LinkRecord.entry := by
  simp only [index, Keyed.find?, List.find?_map, Option.map_map]
  rfl

theorem index_find_url (ledger : Ledger) (url : String) :
    ledger.index.byUrl.find? url = ledger.findUrl url := by
  simp only [index, Keyed.find?, findUrl, List.find?_map, Option.map_map]
  rfl

theorem index_contains_code (ledger : Ledger) (code : ShortCode) :
    ledger.index.byCode.contains code = ledger.records.any (·.code == code) := by
  rw [Keyed.contains, index_find_code, Option.isSome_map, List.isSome_find?]

theorem index_contains_url (ledger : Ledger) (url : String) :
    ledger.index.byUrl.contains url = ledger.records.any (·.url == url) := by
  rw [Keyed.contains, index_find_url, findUrl, Option.isSome_map, List.isSome_find?]

theorem index_refusal (ledger : Ledger) (code : ShortCode) (url : String) :
    ledger.index.refusal? code url = ledger.refusal? code url := by
  rw [Index.refusal?, index_contains_code, index_contains_url, refusal?]

theorem index_get (ledger : Ledger) (code : ShortCode) :
    ledger.index.get code = ledger.get code := by
  rw [Index.get, index_find_code, get]
  cases ledger.records.find? (·.code == code) <;> rfl

theorem mem_owners (ledger : Ledger) (owner : String) :
    owner ∈ ledger.owners ↔ ∃ record ∈ ledger.records, record.owner = owner := by
  simp [owners, List.mem_eraseDups]

theorem codesOf_of_not_mem {ledger : Ledger} {owner : String} (new : owner ∉ ledger.owners) :
    ledger.codesOf owner = [] := by
  have none : ledger.listByOwner owner = [] := by
    apply List.filter_eq_nil_iff.2
    intro record held same
    exact new ((mem_owners ledger owner).2 ⟨record, held, by simpa using same⟩)
  rw [codesOf, none, List.map_nil]

theorem index_find_owner (ledger : Ledger) (owner : String) :
    ledger.index.byOwner.find? owner =
      if owner ∈ ledger.owners then some (ledger.codesOf owner) else none := by
  simp only [index, Keyed.find?, List.find?_map, Option.map_map]
  by_cases known : owner ∈ ledger.owners
  · rw [if_pos known]
    cases found : ledger.owners.find? ((fun entry => decide (entry.1 = owner)) ∘
        fun name => (name, ledger.codesOf name)) with
    | none =>
      have missing := List.find?_eq_none.1 found owner known
      simp at missing
    | some other =>
      have same : other = owner := by simpa using List.find?_some found
      simp [same]
  · rw [if_neg known]
    have none : ledger.owners.find? ((fun entry => decide (entry.1 = owner)) ∘
        fun name => (name, ledger.codesOf name)) = none := by
      apply List.find?_eq_none.2
      intro other held same
      have equal : other = owner := by simpa using same
      exact known (equal ▸ held)
    rw [none]
    rfl

theorem index_codes_of_owner (ledger : Ledger) (owner : String) :
    (ledger.index.byOwner.find? owner).getD [] = ledger.codesOf owner := by
  rw [index_find_owner]
  split
  · rfl
  · rename_i new
    exact (codesOf_of_not_mem new).symm

theorem index_record_of_mem {ledger : Ledger} (distinct : ledger.Distinct) {record : LinkRecord}
    (held : record ∈ ledger.records) : ledger.index.recordOf? record.code = some record := by
  rw [Index.recordOf?, index_find_code, find_code_of_mem distinct held]
  rfl

theorem index_listByOwner {ledger : Ledger} (distinct : ledger.Distinct) (owner : String) :
    ledger.index.listByOwner owner = ledger.listByOwner owner := by
  rw [Index.listByOwner, index_codes_of_owner, codesOf, List.filterMap_map]
  rw [List.filterMap_congr (g := some)]
  · exact List.filterMap_some
  · intro record listed
    exact index_record_of_mem distinct (List.mem_of_mem_filter listed)

theorem index_stats (ledger : Ledger) : ledger.index.stats = ledger.stats := by
  have names : ledger.index.byOwner.keys = ledger.owners := by
    simp [index, Keyed.keys, Function.comp_def]
  simp only [Index.stats, stats, names, Index.size, Keyed.size, owners, eraseDups_filter]
  simp [index]

/-- The ledger with a live record more, whatever it holds. -/
def extend (ledger : Ledger) (code : ShortCode) (url owner : String) : Ledger :=
  ⟨ledger.records ++ [⟨code, url, owner, false⟩]⟩

theorem refusal_none_iff (ledger : Ledger) (code : ShortCode) (url : String) :
    ledger.refusal? code url = none ↔
      url ∉ ledger.records.map LinkRecord.url ∧ code ∉ ledger.records.map LinkRecord.code := by
  have urls : ledger.records.any (·.url == url) = true ↔
      url ∈ ledger.records.map LinkRecord.url := by simp
  have codes : ledger.records.any (·.code == code) = true ↔
      code ∈ ledger.records.map LinkRecord.code := by simp
  simp only [refusal?, urls, codes]
  split
  · rename_i urlTaken
    simp [urlTaken]
  · rename_i urlFree
    split
    · rename_i codeTaken
      simp [codeTaken]
    · rename_i codeFree
      simp [urlFree, codeFree]

theorem extend_distinct {ledger : Ledger} (distinct : ledger.Distinct) {code : ShortCode}
    {url owner : String} (free : ledger.refusal? code url = none) :
    (ledger.extend code url owner).Distinct := by
  rcases (refusal_none_iff ledger code url).1 free with ⟨urlFree, codeFree⟩
  constructor
  · simp only [extend, List.map_append, List.map_cons, List.map_nil]
    exact List.nodup_append.2 ⟨distinct.codes, List.nodup_singleton _,
      fun held listed other new equal => codeFree (by simp_all)⟩
  · simp only [extend, List.map_append, List.map_cons, List.map_nil]
    exact List.nodup_append.2 ⟨distinct.urls, List.nodup_singleton _,
      fun held listed other new equal => urlFree (by simp_all)⟩

theorem codesOf_extend (ledger : Ledger) (code : ShortCode) (url owner name : String) :
    (ledger.extend code url owner).codesOf name =
      if name = owner then ledger.codesOf name ++ [code] else ledger.codesOf name := by
  by_cases same : name = owner
  · subst same
    simp [codesOf, listByOwner, extend]
  · have other : (owner == name) = false := by
      simpa using fun equal : owner = name => same equal.symm
    simp [codesOf, listByOwner, extend, same, other]

theorem owners_extend (ledger : Ledger) (code : ShortCode) (url owner : String) :
    (ledger.extend code url owner).owners =
      if owner ∈ ledger.owners then ledger.owners else ledger.owners ++ [owner] := by
  have known : owner ∈ ledger.owners ↔ owner ∈ ledger.records.map LinkRecord.owner := by
    simp [owners, List.mem_eraseDups]
  have split : (ledger.extend code url owner).owners =
      ledger.owners ++ ([owner].removeAll (ledger.records.map LinkRecord.owner)).eraseDups := by
    simp only [owners, extend, List.map_append, List.map_cons, List.map_nil,
      List.eraseDups_append]
  rw [split]
  by_cases held : owner ∈ ledger.owners
  · have gone : [owner].removeAll (ledger.records.map LinkRecord.owner) = [] := by
      simpa [List.removeAll] using known.1 held
    rw [if_pos held, gone, List.eraseDups_nil, List.append_nil]
  · have stays : [owner].removeAll (ledger.records.map LinkRecord.owner) = [owner] := by
      simpa [List.removeAll] using fun record member same =>
        held (known.2 (List.mem_map.2 ⟨record, member, same⟩))
    rw [if_neg held, stays, List.eraseDups_cons, List.filter_nil, List.eraseDups_nil]

theorem index_store {ledger : Ledger} {code : ShortCode} {url owner : String}
    (free : ledger.refusal? code url = none) :
    ledger.index.store code url owner = (ledger.extend code url owner).index := by
  rcases (refusal_none_iff ledger code url).1 free with ⟨urlFree, codeFree⟩
  have newCode : ledger.index.byCode.contains code = false := by
    rw [index_contains_code]
    simpa using codeFree
  have newUrl : ledger.index.byUrl.contains url = false := by
    rw [index_contains_url]
    simpa using urlFree
  have codes : ledger.index.byCode.insert code ⟨url, owner, false⟩ =
      (ledger.extend code url owner).index.byCode := by
    rw [Keyed.insert, newCode]
    simp [index, extend, LinkRecord.entry]
  have urls : ledger.index.byUrl.insert url code =
      (ledger.extend code url owner).index.byUrl := by
    rw [Keyed.insert, newUrl]
    simp [index, extend]
  have owners : ledger.index.byOwner.insert owner
      ((ledger.index.byOwner.find? owner).getD [] ++ [code]) =
        (ledger.extend code url owner).index.byOwner := by
    rw [index_codes_of_owner, Keyed.insert, Keyed.contains, index_find_owner]
    by_cases known : owner ∈ ledger.owners
    · simp only [index, known, if_true, Option.isSome_some, Keyed.modify, owners_extend,
        List.map_map, codesOf_extend, Keyed.mk.injEq]
      apply List.map_congr_left
      intro name _
      by_cases same : name = owner <;> simp [same]
    · have others : ∀ name ∈ ledger.owners, name ≠ owner :=
        fun name held same => known (same ▸ held)
      simp only [index, known, if_false, Option.isSome_none, Bool.false_eq_true, owners_extend,
        List.map_append, List.map_cons, List.map_nil, codesOf_extend, if_true, Keyed.mk.injEq]
      congr 1
      apply List.map_congr_left
      intro name held
      simp [others name held]
  simp only [Index.store, codes, urls, owners]

theorem index_insert (ledger : Ledger) (code : ShortCode) (url owner : String) :
    ledger.index.insert code url owner =
      ((ledger.put code url owner).1, (ledger.put code url owner).2.index) := by
  unfold Index.insert put
  rw [index_refusal]
  cases free : ledger.refusal? code url with
  | some error => rfl
  | none =>
    simp only [index_store free]
    rfl

theorem put_distinct {ledger : Ledger} (distinct : ledger.Distinct) (code : ShortCode)
    (url owner : String) : (ledger.put code url owner).2.Distinct := by
  unfold put
  cases free : ledger.refusal? code url with
  | some error => exact distinct
  | none => exact extend_distinct distinct free

theorem index_insertLeading (owner : String) (entries : List BatchEntry) (ledger : Ledger) :
    ledger.index.insertLeading owner entries =
      ((putLeading owner entries ledger).1, (putLeading owner entries ledger).2.index) := by
  induction entries generalizing ledger with
  | nil => rfl
  | cons entry entries ih =>
    simp only [Index.insertLeading, putLeading, index_insert]
    cases stored : ledger.put entry.code entry.url owner with
    | mk answer next =>
      cases answer with
      | error error => rfl
      | ok done => exact ih next

theorem putLeading_distinct (owner : String) (entries : List BatchEntry) {ledger : Ledger}
    (distinct : ledger.Distinct) : (putLeading owner entries ledger).2.Distinct := by
  induction entries generalizing ledger with
  | nil => exact distinct
  | cons entry entries ih =>
    have stays := put_distinct distinct entry.code entry.url owner
    unfold putLeading
    cases stored : ledger.put entry.code entry.url owner with
    | mk answer next =>
      rw [stored] at stays
      cases answer with
      | error error => exact stays
      | ok done => exact ih stays

def buried (codes : List ShortCode) (owner : String) (record : LinkRecord) : LinkRecord :=
  if record.owner = owner ∧ record.code ∈ codes then { record with deleted := true } else record

theorem markDeleted_records (ledger : Ledger) (codes : List ShortCode) (owner : String) :
    (ledger.markDeleted codes owner).records = ledger.records.map (buried codes owner) := rfl

theorem buried_code (codes : List ShortCode) (owner : String) (record : LinkRecord) :
    (buried codes owner record).code = record.code := by
  unfold buried
  split <;> rfl

theorem buried_url (codes : List ShortCode) (owner : String) (record : LinkRecord) :
    (buried codes owner record).url = record.url := by
  unfold buried
  split <;> rfl

theorem buried_owner (codes : List ShortCode) (owner : String) (record : LinkRecord) :
    (buried codes owner record).owner = record.owner := by
  unfold buried
  split <;> rfl

theorem markDeleted_distinct {ledger : Ledger} (distinct : ledger.Distinct)
    (codes : List ShortCode) (owner : String) : (ledger.markDeleted codes owner).Distinct := by
  constructor
  · simpa [markDeleted_records, Function.comp_def, buried_code] using distinct.codes
  · simpa [markDeleted_records, Function.comp_def, buried_url] using distinct.urls

theorem markDeleted_nil (ledger : Ledger) (owner : String) :
    ledger.markDeleted [] owner = ledger := by
  simp [markDeleted]

/-- Codes may be buried one after the other. -/
theorem markDeleted_cons (ledger : Ledger) (code : ShortCode) (codes : List ShortCode)
    (owner : String) :
    ledger.markDeleted (code :: codes) owner =
      (ledger.markDeleted [code] owner).markDeleted codes owner := by
  have each : buried (code :: codes) owner = buried codes owner ∘ buried [code] owner := by
    funext record
    simp only [buried, Function.comp_apply, List.mem_cons, List.not_mem_nil, or_false]
    grind
  have records : (ledger.markDeleted (code :: codes) owner).records =
      ((ledger.markDeleted [code] owner).markDeleted codes owner).records := by
    rw [markDeleted_records, markDeleted_records, markDeleted_records, List.map_map, each]
  exact congrArg Ledger.mk records

theorem markDeleted_codesOf (ledger : Ledger) (codes : List ShortCode) (owner name : String) :
    (ledger.markDeleted codes owner).codesOf name = ledger.codesOf name := by
  simp only [codesOf, listByOwner, markDeleted_records, List.filter_map, List.map_map]
  congr 1
  · funext record
    exact buried_code codes owner record
  · apply List.filter_congr
    intro record _
    simp [buried_owner]

theorem index_canBury (ledger : Ledger) (code : ShortCode) (owner : String) :
    ledger.index.canBury code owner =
      match ledger.records.find? (·.code == code) with
      | none => false
      | some record => record.owner == owner && !record.deleted := by
  rw [Index.canBury, index_find_code]
  cases ledger.records.find? (·.code == code) <;> rfl

theorem entry_buried {ledger : Ledger} (distinct : ledger.Distinct) (code : ShortCode)
    (owner : String) {record : LinkRecord} (held : record ∈ ledger.records) :
    (buried [code] owner record).entry =
      if record.code = code ∧ ledger.index.canBury code owner = true then
        { record.entry with deleted := true }
      else record.entry := by
  by_cases same : record.code = code
  · -- Only this record has the code, so it decides whether the code can be buried.
    have found := find_code_of_mem distinct held
    rw [same] at found
    rw [index_canBury, found]
    cases deleted : record.deleted <;> by_cases owned : record.owner = owner <;>
      simp [buried, LinkRecord.entry, same, owned, deleted]
  · simp [buried, LinkRecord.entry, same]

theorem index_bury {ledger : Ledger} (distinct : ledger.Distinct) (code : ShortCode)
    (owner : String) :
    ledger.index.bury code owner = (ledger.markDeleted [code] owner).index := by
  have owners : (ledger.markDeleted [code] owner).owners = ledger.owners := by
    simp [Ledger.owners, markDeleted_records, Function.comp_def, buried_owner]
  have byOwner : (ledger.markDeleted [code] owner).index.byOwner = ledger.index.byOwner := by
    simp only [index, owners, markDeleted_codesOf]
  have byUrl : (ledger.markDeleted [code] owner).index.byUrl = ledger.index.byUrl := by
    simp [index, markDeleted_records, Function.comp_def, buried_url, buried_code]
  have byCode : (ledger.markDeleted [code] owner).index.byCode =
      if ledger.index.canBury code owner then
        ledger.index.byCode.modify code fun entry => { entry with deleted := true }
      else ledger.index.byCode := by
    have lines : (ledger.markDeleted [code] owner).index.byCode =
        ⟨ledger.records.map fun record =>
          (record.code, (buried [code] owner record).entry)⟩ := by
      simp [index, markDeleted_records, Function.comp_def, buried_code]
    rw [lines]
    split
    · rename_i able
      simp only [index, Keyed.modify, List.map_map, Keyed.mk.injEq]
      apply List.map_congr_left
      intro record held
      rw [entry_buried distinct code owner held, Function.comp_apply]
      by_cases same : record.code = code <;> simp [same, able]
    · rename_i unable
      simp only [index, Keyed.mk.injEq]
      apply List.map_congr_left
      intro record held
      rw [entry_buried distinct code owner held, if_neg fun both => unable both.2]
  have whole : (ledger.markDeleted [code] owner).index =
      ⟨(ledger.markDeleted [code] owner).index.byCode,
        (ledger.markDeleted [code] owner).index.byUrl,
        (ledger.markDeleted [code] owner).index.byOwner⟩ := rfl
  rw [whole, byCode, byUrl, byOwner, Index.bury]
  split <;> rfl

theorem index_buryAll (owner : String) (codes : List ShortCode) {ledger : Ledger}
    (distinct : ledger.Distinct) :
    ledger.index.buryAll codes owner = (ledger.markDeleted codes owner).index := by
  induction codes generalizing ledger with
  | nil => rw [markDeleted_nil, Index.buryAll, List.foldl_nil]
  | cons code codes ih =>
    rw [markDeleted_cons, ← ih (markDeleted_distinct distinct [code] owner),
      ← index_bury distinct code owner]
    rfl

end Ledger

end ShortLinks
