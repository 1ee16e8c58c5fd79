import ShortLinks.Proofs.LedgerIndex
import Mathlib.Data.List.Count
import Mathlib.Data.Set.Card

/-!
# The tables of the index agree

The three tables of an index are read apart from each other, so they have to tell the same story.
They do in every index that inserts and tombstones lead to: codes and URLs are paired one to one,
and the lists of the owners share the stored codes out among them. An edit that is refused or has
no effect is the only one that leaves the tables as they are.
-/

namespace ShortLinks

set_option autoImplicit false

namespace Keyed

variable {κ ν : Type} [DecidableEq κ]

theorem mem_keys (table : Keyed κ ν) (key : κ) :
    key ∈ table.keys ↔ ∃ value, table.find? key = some value := by
  rw [← Option.isSome_iff_exists, find?, Option.isSome_map, List.find?_isSome, keys]
  simp

end Keyed

namespace Index

inductive Edit
  | insert (code : ShortCode) (url owner : String)
  | bury (code : ShortCode) (owner : String)

def edit (index : Index) : Edit → Index
  | .insert code url owner => (index.insert code url owner).2
  | .bury code owner => index.bury code owner

/-- The index that edits lead to, whether they are accepted or not. -/
def built (edits : List Edit) : Index := edits.foldl edit empty

variable {index : Index} {code : ShortCode} {url : String}

theorem refusal_none_iff : index.refusal? code url = none ↔
    index.byUrl.find? url = none ∧ index.byCode.find? code = none := by
  unfold refusal? Keyed.contains
  cases index.byUrl.find? url <;> cases index.byCode.find? code <;> simp

theorem can_bury_iff {owner : String} : index.canBury code owner = true ↔
    ∃ entry, index.byCode.find? code = some entry ∧ entry.owner = owner ∧
      entry.deleted = false := by
  unfold canBury
  cases index.byCode.find? code <;> simp

theorem store_changes (free : index.refusal? code url = none) (owner : String) :
    index.store code url owner ≠ index := by
  intro same
  have held : (index.store code url owner).byUrl.find? url = some code := by
    rw [store, Keyed.find_insert, if_pos rfl]
  rw [same, (refusal_none_iff.1 free).1] at held
  cases held

theorem bury_changes {owner : String} (able : index.canBury code owner = true) :
    index.bury code owner ≠ index := by
  intro same
  -- A tombstone that was set cannot be set again.
  have unable : (index.bury code owner).canBury code owner = false := by
    rw [bury, if_pos able]
    unfold canBury at able ⊢
    rw [Keyed.find_modify, if_pos rfl]
    cases index.byCode.find? code with
    | none => rfl
    | some entry => simp
  rw [same, able] at unable
  cases unable

/-- An insert fails if one of its keys is taken and a tombstone if its owner has no live record
with the code, and exactly then nothing changes. -/
structure Guarded (index : Index) : Prop where
  accepted : ∀ code url owner, (index.insert code url owner).1 = .ok () ↔
    index.byUrl.find? url = none ∧ index.byCode.find? code = none
  refused : ∀ code url owner, (index.insert code url owner).2 = index ↔
    (index.insert code url owner).1 ≠ .ok ()
  effective : ∀ code owner, index.canBury code owner = true ↔
    ∃ entry, index.byCode.find? code = some entry ∧ entry.owner = owner ∧ entry.deleted = false
  ineffective : ∀ code owner, index.bury code owner = index ↔ index.canBury code owner = false

theorem guarded (index : Index) : index.Guarded := by
  refine ⟨?_, ?_, fun _ _ => can_bury_iff, ?_⟩
  · intro code url owner
    rw [← refusal_none_iff, insert]
    cases index.refusal? code url <;> simp
  · intro code url owner
    unfold insert
    cases free : index.refusal? code url with
    | some error => simp
    | none => simpa using store_changes free owner
  · intro code owner
    cases able : index.canBury code owner with
    | true => simpa using bury_changes able
    | false => simp [bury, able]

def codesOf (index : Index) (owner : String) : List ShortCode :=
  (index.byOwner.find? owner).getD []

/-- Each table has its keys once, and all three hold the same records. -/
structure Coherent (index : Index) : Prop where
  codesOnce : index.byCode.keys.Nodup
  urlsOnce : index.byUrl.keys.Nodup
  ownersOnce : index.byOwner.keys.Nodup
  paired : ∀ url code, index.byUrl.find? url = some code ↔
    ∃ entry, index.byCode.find? code = some entry ∧ entry.url = url
  listed : ∀ owner codes, index.byOwner.find? owner = some codes → codes ≠ [] ∧ codes.Nodup
  owned : ∀ owner code, code ∈ index.codesOf owner ↔
    ∃ entry, index.byCode.find? code = some entry ∧ entry.owner = owner

end Index

namespace Ledger

variable {ledger : Ledger}

theorem codesOf_nodup (distinct : ledger.Distinct) (owner : String) :
    (ledger.codesOf owner).Nodup :=
  distinct.codes.sublist (List.filter_sublist.map LinkRecord.code)

theorem find_entry_iff (distinct : ledger.Distinct) (code : ShortCode) (entry : IndexEntry) :
    ledger.index.byCode.find? code = some entry ↔
      ∃ record ∈ ledger.records, record.code = code ∧ record.entry = entry := by
  rw [index_find_code, Option.map_eq_some_iff]
  simp only [find_iff_of_nodup_map distinct.codes, and_assoc]

theorem find_url_iff (distinct : ledger.Distinct) (url : String) (code : ShortCode) :
    ledger.index.byUrl.find? url = some code ↔
      ∃ record ∈ ledger.records, record.url = url ∧ record.code = code := by
  rw [index_find_url, findUrl, Option.map_eq_some_iff]
  simp only [find_iff_of_nodup_map distinct.urls, and_assoc]

theorem mem_codesOf (ledger : Ledger) (owner : String) (code : ShortCode) :
    code ∈ ledger.codesOf owner ↔
      ∃ record ∈ ledger.records, record.owner = owner ∧ record.code = code := by
  simp only [codesOf, listByOwner, List.mem_map, List.mem_filter, beq_iff_eq, and_assoc]

theorem index_coherent (distinct : ledger.Distinct) : ledger.index.Coherent := by
  have ownersOnce : ledger.owners.Nodup := eraseDups_nodup _
  refine ⟨?_, ?_, ?_, ?_, ?_, ?_⟩
  · simpa [index, Keyed.keys, Function.comp_def] using distinct.codes
  · simpa [index, Keyed.keys, Function.comp_def] using distinct.urls
  · simpa [index, Keyed.keys, Function.comp_def] using ownersOnce
  · intro url code
    rw [find_url_iff distinct]
    simp only [find_entry_iff distinct]
    constructor
    · rintro ⟨record, held, rfl, rfl⟩
      exact ⟨record.entry, ⟨record, held, rfl, rfl⟩, rfl⟩
    · rintro ⟨_, ⟨record, held, rfl, rfl⟩, rfl⟩
      exact ⟨record, held, rfl, rfl⟩
  · intro owner codes found
    rw [index_find_owner] at found
    split at found
    · rename_i known
      obtain rfl := Option.some.inj found
      obtain ⟨record, held, same⟩ := (mem_owners ledger owner).1 known
      have listed := (mem_codesOf ledger owner record.code).2 ⟨record, held, same, rfl⟩
      exact ⟨List.ne_nil_of_mem listed, codesOf_nodup distinct owner⟩
    · cases found
  · intro owner code
    rw [Index.codesOf, index_codes_of_owner, mem_codesOf]
    simp only [find_entry_iff distinct]
    constructor
    · rintro ⟨record, held, rfl, rfl⟩
      exact ⟨record.entry, ⟨record, held, rfl, rfl⟩, rfl⟩
    · rintro ⟨_, ⟨record, held, rfl, rfl⟩, rfl⟩
      exact ⟨record, held, rfl, rfl⟩

end Ledger

namespace Index

variable {index : Index}

theorem edit_ledger {ledger : Ledger} (distinct : ledger.Distinct) (edit : Edit) :
    ∃ next : Ledger, next.Distinct ∧ ledger.index.edit edit = next.index := by
  cases edit with
  | insert code url owner =>
    refine ⟨_, Ledger.put_distinct distinct code url owner, ?_⟩
    rw [Index.edit, Ledger.index_insert]
  | bury code owner =>
    exact ⟨_, Ledger.markDeleted_distinct distinct [code] owner,
      Ledger.index_bury distinct code owner⟩

theorem built_ledger (edits : List Edit) :
    ∃ ledger : Ledger, ledger.Distinct ∧ built edits = ledger.index := by
  induction edits using List.reverseRecOn with
  | nil => exact ⟨Ledger.empty, Ledger.empty_distinct, rfl⟩
  | append_singleton edits last induction =>
    obtain ⟨ledger, distinct, reached⟩ := induction
    have further : built (edits ++ [last]) = (built edits).edit last := by
      simp [built]
    rw [further, reached]
    exact edit_ledger distinct last

/-- The codes of an owner have their records, and counting goes the same way through any table. -/
structure Told (index : Index) : Prop where
  once : ∀ code entry, index.byCode.find? code = some entry → ∀ owner,
    (index.codesOf owner).count code = if owner = entry.owner then 1 else 0
  whole : ∀ owner, (index.listByOwner owner).map some =
    (index.codesOf owner).map index.recordOf?
  urls : index.stats.urls =
    (index.byOwner.keys.map fun owner => (index.codesOf owner).length).sum
  users : index.stats.users =
    {owner | owner ≠ "" ∧ ∃ code entry, index.byCode.find? code = some entry ∧
      entry.owner = owner}.ncard

namespace Coherent

theorem codes_nodup (coherent : index.Coherent) (owner : String) :
    (index.codesOf owner).Nodup := by
  unfold codesOf
  cases found : index.byOwner.find? owner with
  | none => exact List.nodup_nil
  | some codes => exact (coherent.listed owner codes found).2

theorem mem_owners (coherent : index.Coherent) (owner : String) :
    owner ∈ index.byOwner.keys ↔
      ∃ code entry, index.byCode.find? code = some entry ∧ entry.owner = owner := by
  simp only [← coherent.owned]
  rw [Keyed.mem_keys]
  constructor
  · rintro ⟨codes, found⟩
    obtain ⟨code, held⟩ := List.exists_mem_of_ne_nil codes (coherent.listed owner codes found).1
    exact ⟨code, by rwa [codesOf, found]⟩
  · rintro ⟨code, held⟩
    cases found : index.byOwner.find? owner with
    | none => simp [codesOf, found] at held
    | some codes => exact ⟨codes, rfl⟩

theorem codes_shared_out (coherent : index.Coherent) :
    index.byCode.keys.Perm (index.byOwner.keys.flatMap index.codesOf) := by
  have apart : (index.byOwner.keys.flatMap index.codesOf).Nodup := by
    apply List.nodup_flatMap.2
    refine ⟨fun owner _ => coherent.codes_nodup owner, ?_⟩
    apply coherent.ownersOnce.imp
    intro first second other code held twice
    obtain ⟨entry, found, rfl⟩ := (coherent.owned first code).1 held
    obtain ⟨same, again, rfl⟩ := (coherent.owned second code).1 twice
    rw [found] at again
    exact other (congrArg IndexEntry.owner (Option.some.inj again))
  apply (List.perm_ext_iff_of_nodup coherent.codesOnce apart).2
  intro code
  rw [Keyed.mem_keys, List.mem_flatMap]
  constructor
  · rintro ⟨entry, found⟩
    exact ⟨entry.owner, (coherent.mem_owners _).2 ⟨code, entry, found, rfl⟩,
      (coherent.owned _ code).2 ⟨entry, found, rfl⟩⟩
  · rintro ⟨owner, _, held⟩
    obtain ⟨entry, found, _⟩ := (coherent.owned owner code).1 held
    exact ⟨entry, found⟩

theorem count_code (coherent : index.Coherent) {code : ShortCode} {entry : IndexEntry}
    (found : index.byCode.find? code = some entry) (owner : String) :
    (index.codesOf owner).count code = if owner = entry.owner then 1 else 0 := by
  have member : code ∈ index.codesOf owner ↔ owner = entry.owner := by
    rw [coherent.owned, found]
    simp [eq_comm]
  rw [List.Nodup.count (coherent.codes_nodup owner)]
  simp only [member]

theorem listed_whole (coherent : index.Coherent) (owner : String) :
    (index.listByOwner owner).map some = (index.codesOf owner).map index.recordOf? := by
  have held : ∀ code ∈ index.codesOf owner, ∃ record, index.recordOf? code = some record := by
    intro code listed
    obtain ⟨entry, found, _⟩ := (coherent.owned owner code).1 listed
    exact ⟨_, by rw [recordOf?, found]; rfl⟩
  rw [listByOwner, ← codesOf]
  generalize index.codesOf owner = codes at held
  induction codes with
  | nil => rfl
  | cons code codes induction =>
    rw [List.forall_mem_cons] at held
    obtain ⟨record, found⟩ := held.1
    rw [List.filterMap_cons_some found, List.map_cons, List.map_cons, found, induction held.2]

theorem size_as_sum (coherent : index.Coherent) :
    index.stats.urls =
      (index.byOwner.keys.map fun owner => (index.codesOf owner).length).sum := by
  have size : index.stats.urls = index.byCode.keys.length := by
    simp [stats, Index.size, Keyed.size, Keyed.keys]
  rw [size, coherent.codes_shared_out.length_eq, List.length_flatMap]

theorem users_as_set (coherent : index.Coherent) :
    index.stats.users =
      {owner | owner ≠ "" ∧ ∃ code entry, index.byCode.find? code = some entry ∧
        entry.owner = owner}.ncard := by
  have named : (index.byOwner.keys.filter (· != "")).Nodup := coherent.ownersOnce.filter _
  have same : {owner | owner ≠ "" ∧ ∃ code entry, index.byCode.find? code = some entry ∧
      entry.owner = owner} = ((index.byOwner.keys.filter (· != "")).toFinset : Set String) := by
    ext owner
    simp [coherent.mem_owners owner, and_comm]
  rw [same, Set.ncard_coe_finset, List.toFinset_card_of_nodup named, stats]

theorem told (coherent : index.Coherent) : index.Told :=
  ⟨fun _ _ found => coherent.count_code found, coherent.listed_whole, coherent.size_as_sum,
    coherent.users_as_set⟩

end Coherent

/-- Whatever edits were made, refused ones included, the three tables tell the same story, and
only an edit that takes effect changes any of them. -/
theorem tables_agree (edits : List Edit) :
    (built edits).Coherent ∧ (built edits).Told ∧ (built edits).Guarded := by
  obtain ⟨ledger, distinct, reached⟩ := built_ledger edits
  have coherent : (built edits).Coherent := by
    rw [reached]
    exact Ledger.index_coherent distinct
  exact ⟨coherent, coherent.told, guarded (built edits)⟩

/-- The second insert finds its URL free and its code taken, and the tombstone is not the
owner's. -/
example : built [.insert ⟨"a"⟩ "http://1" "u1", .insert ⟨"a"⟩ "http://2" "u2", .bury ⟨"a"⟩ "u2"] =
    built [.insert ⟨"a"⟩ "http://1" "u1"] := by decide

end Index

end ShortLinks
