import ShortLinks.Proofs.PartialEffect

/-!
# What happens to records

A record gets its tombstone from a deletion of its owner that names its code, and nothing else
ever happens to it. New records come behind the old ones, each from a call of its owner. So what
one owner sees is not touched by the calls of another.
-/

namespace ShortLinks

set_option autoImplicit false

/-- The owner for whom a call changes records. -/
def StoreCall.writer? {α : Type} : StoreCall α → Option String
  | .put _ _ owner => some owner
  | .putBatch _ owner => some owner
  | .markDeleted _ owner => some owner
  | _ => none

def Ask.writer? (ask : Ask) : Option String := ask.call.writer?

namespace LinkRecord

variable {first second : List Ask} {before between after : LinkRecord}

/-- What the calls may have made of a record. -/
structure Ages (made : List Ask) (before after : LinkRecord) : Prop where
  bond : after.bond = before.bond
  kept : before.deleted = true → after.deleted = true
  asked : before.deleted = false → after.deleted = true →
    ∃ codes, (⟨.markDeleted codes before.owner⟩ : Ask) ∈ made ∧ before.code ∈ codes

theorem Ages.refl (made : List Ask) (record : LinkRecord) : record.Ages made record := by
  refine ⟨rfl, id, ?_⟩
  intro live deleted
  rw [live] at deleted
  cases deleted

theorem Ages.code (ages : before.Ages first after) : after.code = before.code :=
  congrArg Bond.code ages.bond

theorem Ages.url (ages : before.Ages first after) : after.url = before.url :=
  congrArg Bond.url ages.bond

theorem Ages.owner (ages : before.Ages first after) : after.owner = before.owner :=
  congrArg Bond.owner ages.bond

theorem Ages.trans (early : before.Ages first between) (late : between.Ages second after) :
    before.Ages (first ++ second) after := by
  refine ⟨late.bond.trans early.bond, fun deleted => late.kept (early.kept deleted), ?_⟩
  intro live deleted
  cases flag : between.deleted with
  | true =>
    rcases early.asked live flag with ⟨codes, made, named⟩
    exact ⟨codes, List.mem_append_left second made, named⟩
  | false =>
    rcases late.asked flag deleted with ⟨codes, made, named⟩
    rw [early.owner] at made
    rw [early.code] at named
    exact ⟨codes, List.mem_append_right first made, named⟩

/-- Calls for other owners leave a record alone. -/
theorem Ages.unmoved (ages : before.Ages first after)
    (others : ∀ ask ∈ first, ask.writer? ≠ some before.owner) : after = before := by
  have flag : after.deleted = before.deleted := by
    cases live : before.deleted with
    | true => exact ages.kept live
    | false =>
      cases set : after.deleted with
      | false => rfl
      | true =>
        rcases ages.asked live set with ⟨codes, made, _⟩
        exact absurd rfl (others _ made)
  rcases before with ⟨code, url, owner, deleted⟩
  rcases after with ⟨code', url', owner', deleted'⟩
  cases flag
  cases ages.bond
  rfl

theorem ages_buried {codes buried : List ShortCode} (within : buried ⊆ codes) (owner : String)
    (record : LinkRecord) :
    record.Ages [⟨.markDeleted codes owner⟩] (Ledger.buried buried owner record) := by
  unfold Ledger.buried
  split
  · rename_i own
    refine ⟨rfl, fun _ => rfl, ?_⟩
    intro _ _
    rw [own.1]
    exact ⟨codes, List.mem_cons_self, within own.2⟩
  · exact .refl _ record

end LinkRecord

namespace Ledger

variable {first second made : List Ask} {ledger before between after : Ledger}

/-- What the calls may have made of a ledger. -/
def Ages (made : List Ask) (before after : Ledger) : Prop :=
  ∃ (change : LinkRecord → LinkRecord) (added : List LinkRecord),
    after.records = before.records.map change ++ added ∧
    (∀ record : LinkRecord, record.Ages made (change record)) ∧
    ∀ record ∈ added, ∃ ask ∈ made, ask.writer? = some record.owner

theorem ages_refl (made : List Ask) (ledger : Ledger) : ledger.Ages made ledger :=
  ⟨id, [], by simp, .refl made, by simp⟩

theorem ages_trans (early : before.Ages first between) (late : between.Ages second after) :
    before.Ages (first ++ second) after := by
  rcases early with ⟨change, added, reached, aged, written⟩
  rcases late with ⟨later, more, last, agedLater, writtenLater⟩
  refine ⟨later ∘ change, added.map later ++ more, ?_, ?_, ?_⟩
  · rw [last, reached, List.map_append, List.map_map, List.append_assoc]
  · intro record
    exact (aged record).trans (agedLater (change record))
  · intro record held
    rcases List.mem_append.1 held with old | new
    · rcases List.mem_map.1 old with ⟨origin, stored, rfl⟩
      rcases written origin stored with ⟨ask, made, writer⟩
      rw [(agedLater origin).owner]
      exact ⟨ask, List.mem_append_left second made, writer⟩
    · rcases writtenLater record new with ⟨ask, made, writer⟩
      exact ⟨ask, List.mem_append_right first made, writer⟩

/-- New records are the caller's. -/
theorem ages_added {ask : Ask} {owner : String} (writer : ask.writer? = some owner)
    {added : List LinkRecord} (reached : after.records = before.records ++ added)
    (owned : ∀ record ∈ added, record.owner = owner) : before.Ages [ask] after := by
  refine ⟨id, added, by rw [reached, List.map_id], .refl [ask], ?_⟩
  intro record held
  exact ⟨ask, List.mem_cons_self, by rw [writer, owned record held]⟩

theorem put_added (ledger : Ledger) (code : ShortCode) (url owner : String) :
    ∃ added : List LinkRecord,
      (ledger.put code url owner).2.records = ledger.records ++ added ∧
      ∀ record ∈ added, record.owner = owner := by
  rcases put_cases ledger code url owner with ⟨error, refused, _⟩ | ⟨_, stored⟩
  · rw [refused]
    exact ⟨[], by simp, by simp⟩
  · rw [stored]
    exact ⟨[⟨code, url, owner, false⟩], rfl, by simp⟩

theorem putLeading_added (owner : String) (entries : List BatchEntry) (ledger : Ledger) :
    ∃ added : List LinkRecord,
      (putLeading owner entries ledger).2.records = ledger.records ++ added ∧
      ∀ record ∈ added, record.owner = owner := by
  induction entries generalizing ledger with
  | nil => exact ⟨[], by simp [putLeading], by simp⟩
  | cons entry entries induction =>
    rcases put_added ledger entry.code entry.url owner with ⟨added, reached, owned⟩
    unfold putLeading
    cases stored : ledger.put entry.code entry.url owner with
    | mk answer next =>
      rw [stored] at reached
      cases answer with
      | error error => exact ⟨added, reached, owned⟩
      | ok done =>
        rcases induction next with ⟨more, last, ownedMore⟩
        refine ⟨added ++ more, ?_, ?_⟩
        · rw [last, reached, List.append_assoc]
        · intro record held
          exact (List.mem_append.1 held).elim (owned record) (ownedMore record)

theorem partly_ages {α : Type} {call : StoreCall α} (partly : ledger.Partly call after) :
    ledger.Ages [⟨call⟩] after := by
  cases call with
  | put code url owner =>
    rcases partly with rfl | rfl
    · exact ages_refl _ after
    · rcases put_added ledger code url owner with ⟨added, reached, owned⟩
      exact ages_added rfl reached owned
  | putBatch entries owner =>
    rcases partly with ⟨stored, _, rfl⟩
    rcases putLeading_added owner stored ledger with ⟨added, reached, owned⟩
    exact ages_added rfl reached owned
  | markDeleted codes owner =>
    rcases partly with ⟨buried, within, rfl⟩
    refine ⟨Ledger.buried buried owner, [], ?_, LinkRecord.ages_buried within owner, by simp⟩
    rw [markDeleted_records, List.append_nil]
  | _ =>
    cases partly
    exact ages_refl _ ledger

theorem grows_of_ages (ages : before.Ages made after) : before.Grows after := by
  rcases ages with ⟨change, added, reached, aged, _⟩
  refine ⟨added.map LinkRecord.bond, ?_⟩
  rw [bonds, bonds, reached, List.map_append, List.map_map]
  congr 1
  apply List.map_congr_left
  intro record _
  exact (aged record).bond.symm

theorem list_ages (ages : before.Ages made after) (owner : String) :
    ∃ (change : LinkRecord → LinkRecord) (added : List LinkRecord),
      after.listByOwner owner = (before.listByOwner owner).map change ++ added ∧
      ∀ record : LinkRecord, record.Ages made (change record) := by
  rcases ages with ⟨change, added, reached, aged, _⟩
  refine ⟨change, added.filter (·.owner == owner), ?_, aged⟩
  rw [listByOwner, reached, List.filter_append, List.filter_map, listByOwner]
  congr 2
  apply List.filter_congr
  intro record _
  rw [Function.comp_apply, (aged record).owner]

theorem list_isolated (ages : before.Ages made after) {owner : String}
    (others : ∀ ask ∈ made, ask.writer? ≠ some owner) :
    after.listByOwner owner = before.listByOwner owner := by
  rcases ages with ⟨change, added, reached, aged, written⟩
  have none : added.filter (·.owner == owner) = [] := by
    rw [List.filter_eq_nil_iff]
    intro record held owned
    rcases written record held with ⟨ask, asked, writer⟩
    rw [beq_iff_eq.1 owned] at writer
    exact others ask asked writer
  have own : ((·.owner == owner) ∘ change : LinkRecord → Bool) = (·.owner == owner) := by
    funext record
    rw [Function.comp_apply, (aged record).owner]
  rw [listByOwner, reached, List.filter_append, none, List.append_nil, List.filter_map, own,
    ← listByOwner]
  have unmoved : ∀ record ∈ before.listByOwner owner, change record = id record := by
    intro record held
    have owned : record.owner = owner := by simpa using List.of_mem_filter held
    apply (aged record).unmoved
    rw [owned]
    exact others
  rw [List.map_congr_left unmoved, List.map_id]

theorem find_code_ages (ages : before.Ages made after) {code : ShortCode} {record : LinkRecord}
    (found : before.records.find? (·.code == code) = some record) :
    ∃ again, after.records.find? (·.code == code) = some again ∧ record.Ages made again := by
  rcases ages with ⟨change, added, reached, aged, _⟩
  have same : ((·.code == code) ∘ change : LinkRecord → Bool) = (·.code == code) := by
    funext record
    rw [Function.comp_apply, (aged record).code]
  refine ⟨change record, ?_, aged record⟩
  rw [reached, List.find?_append, List.find?_map, same, found]
  rfl

theorem get_ages (ages : before.Ages made after) {code : ShortCode} {url : String}
    (held : before.get code = .ok (some url)) :
    after.get code = .ok (some url) ∨ after.get code = .error (.deleted code.text) := by
  unfold get at held ⊢
  cases found : before.records.find? (·.code == code) with
  | none =>
    rw [found] at held
    cases held
  | some record =>
    rcases find_code_ages ages found with ⟨again, later, aged⟩
    rw [found] at held
    rw [later]
    cases live : record.deleted with
    | true => simp [live] at held
    | false =>
      have url : record.url = url := by simpa [live] using held
      cases flag : again.deleted with
      | true =>
        right
        simp [flag]
      | false =>
        left
        simp [flag, aged.url, url]

theorem get_deleted_ages (ages : before.Ages made after) {code : ShortCode}
    (held : before.get code = .error (.deleted code.text)) :
    after.get code = .error (.deleted code.text) := by
  unfold get at held ⊢
  cases found : before.records.find? (·.code == code) with
  | none =>
    rw [found] at held
    cases held
  | some record =>
    rcases find_code_ages ages found with ⟨again, later, aged⟩
    rw [found] at held
    rw [later]
    cases live : record.deleted with
    | true => simp [aged.kept live]
    | false => simp [live] at held

/-- No record ever takes the code of another. -/
theorem bond_ages (ages : before.Ages made after) (distinct : after.Distinct)
    {record again : LinkRecord} (held : record ∈ before.records) (later : again ∈ after.records)
    (same : again.code = record.code) : again.bond = record.bond := by
  rcases ages with ⟨change, added, reached, aged, _⟩
  have kept : change record ∈ after.records := by
    rw [reached]
    exact List.mem_append_left added (List.mem_map_of_mem held)
  have code : again.code = (change record).code := same.trans (aged record).code.symm
  rw [List.inj_on_of_nodup_map distinct.codes later kept code]
  exact (aged record).bond

end Ledger

end ShortLinks
