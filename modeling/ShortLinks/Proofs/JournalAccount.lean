import ShortLinks.Proofs.JournalStages

/-!
# The log accounts for the index

The check before an append and the change after it are made by different functions, but they agree:
a line is only written for what the index will hold. So a log that began empty has one line for
each record and one more for each deleted record, and the index changes if and only if the log
grows.
-/

namespace ShortLinks

set_option autoImplicit false

def LinkRecord.liveLine (record : LinkRecord) : JournalLine :=
  .live record.code record.url record.owner

def LinkRecord.tombstoneLine (record : LinkRecord) : JournalLine :=
  .tombstone record.code record.url record.owner

namespace Index

variable {index : Index} {code : ShortCode} {url owner : String} {record : LinkRecord}

theorem record_code (found : index.recordOf? code = some record) : record.code = code := by
  obtain ⟨entry, _, rfl⟩ := Option.map_eq_some_iff.1 found
  rfl

theorem contains_code_iff :
    index.byCode.contains code = true ↔ ∃ record, index.recordOf? code = some record := by
  rw [Keyed.contains, recordOf?, ← Option.isSome_iff_exists, Option.isSome_map]

theorem record_store (index : Index) (code wanted : ShortCode) (url owner : String) :
    (index.store code url owner).recordOf? wanted =
      if wanted = code then some ⟨code, url, owner, false⟩ else index.recordOf? wanted := by
  rw [recordOf?, store, Keyed.find_insert]
  by_cases same : wanted = code
  · simp [same]
  · simp [same, recordOf?]

theorem record_free (free : index.refusal? code url = none) : index.recordOf? code = none := by
  rw [recordOf?, (refusal_none_iff.1 free).2]
  rfl

theorem record_buriable (able : index.canBury code owner = true) :
    ∃ url, index.recordOf? code = some ⟨code, url, owner, false⟩ := by
  obtain ⟨⟨url, _, _⟩, found, rfl, rfl⟩ := can_bury_iff.1 able
  exact ⟨url, by rw [recordOf?, found]; rfl⟩

theorem record_bury (able : index.canBury code owner = true) (wanted : ShortCode) :
    (index.bury code owner).recordOf? wanted =
      if wanted = code then
        (index.recordOf? code).map fun record => { record with deleted := true }
      else index.recordOf? wanted := by
  rw [recordOf?, bury, if_pos able, Keyed.find_modify]
  by_cases same : wanted = code
  · simp [same, recordOf?, Function.comp_def]
  · simp [same, recordOf?]

end Index

/-- One live line, and one tombstone behind it if the record is deleted. -/
structure AccountsFor (written : List JournalLine) (record : LinkRecord) : Prop where
  stored : written.count record.liveLine = 1
  buried : written.count record.tombstoneLine = if record.deleted then 1 else 0
  behind : record.deleted = true → [record.liveLine, record.tombstoneLine].Sublist written

/-- The lines of the stored records and no others. -/
structure Accounts (written : List JournalLine) (index : Index) : Prop where
  records : ∀ code record, index.recordOf? code = some record → AccountsFor written record
  others : ∀ line ∈ written, ∃ record, index.recordOf? line.code = some record ∧
    (line = record.liveLine ∨ line = record.tombstoneLine)

namespace AccountsFor

variable {written : List JournalLine} {record : LinkRecord}

theorem count_other {line other : JournalLine} (apart : other.code ≠ line.code) :
    (written ++ [other]).count line = written.count line := by
  have differ : other ≠ line := fun same => apart (congrArg JournalLine.code same)
  simp [List.count_append, differ]

theorem append_other (accounts : AccountsFor written record) {line : JournalLine}
    (apart : line.code ≠ record.code) : AccountsFor (written ++ [line]) record := by
  refine ⟨?_, ?_, fun deleted => ?_⟩
  · have live : line.code ≠ record.liveLine.code := apart
    rw [count_other live]
    exact accounts.stored
  · have tombstone : line.code ≠ record.tombstoneLine.code := apart
    rw [count_other tombstone]
    exact accounts.buried
  · exact (accounts.behind deleted).trans (List.sublist_append_left _ _)

theorem append_live (missing : ∀ line ∈ written, line.code ≠ record.code)
    (live : record.deleted = false) : AccountsFor (written ++ [record.liveLine]) record := by
  have none : ∀ line : JournalLine, line.code = record.code → written.count line = 0 :=
    fun line named => List.count_eq_zero.2 fun held => missing line held named
  have differ : record.liveLine ≠ record.tombstoneLine := by
    intro same
    have flags := congrArg JournalLine.deleted same
    cases flags
  refine ⟨?_, ?_, ?_⟩
  · rw [List.count_append, none _ rfl, List.count_singleton_self]
  · rw [List.count_append, none _ rfl, List.count_singleton, live]
    simp [differ]
  · simp [live]

theorem append_tombstone (accounts : AccountsFor written record) (live : record.deleted = false) :
    AccountsFor (written ++ [record.tombstoneLine]) { record with deleted := true } := by
  have differ : record.tombstoneLine ≠ record.liveLine := by
    intro same
    have flags := congrArg JournalLine.deleted same
    cases flags
  have none := accounts.buried
  rw [live] at none
  have held : record.liveLine ∈ written := by
    apply List.count_pos_iff.1
    rw [accounts.stored]
    exact Nat.one_pos
  refine ⟨?_, ?_, fun _ => ?_⟩
  · change (written ++ [record.tombstoneLine]).count record.liveLine = 1
    rw [List.count_append, accounts.stored, List.count_singleton]
    simp [differ]
  · change (written ++ [record.tombstoneLine]).count record.tombstoneLine = 1
    rw [List.count_append, none, List.count_singleton_self]
    rfl
  · exact (List.singleton_sublist.2 held).append (List.Sublist.refl [record.tombstoneLine])

end AccountsFor

namespace Accounts

variable {written lines : List JournalLine} {index next : Index}

theorem nothing : Accounts [] Index.empty := by
  refine ⟨?_, by simp⟩
  intro code record found
  cases found

theorem append (accounts : Accounts written index) (line : JournalLine) (record : LinkRecord)
    (changed : ∀ wanted, next.recordOf? wanted =
      if wanted = line.code then some record else index.recordOf? wanted)
    (own : AccountsFor (written ++ [line]) record)
    (lines : ∀ known ∈ written ++ [line], known.code = line.code →
      known = record.liveLine ∨ known = record.tombstoneLine) :
    Accounts (written ++ [line]) next := by
  refine ⟨?_, ?_⟩
  · intro wanted held found
    rw [changed] at found
    split at found
    · obtain rfl := Option.some.inj found
      exact own
    · rename_i other
      apply (accounts.records wanted held found).append_other
      rw [Index.record_code found]
      exact fun same => other same.symm
  · intro known listed
    rw [changed]
    split
    · rename_i same
      exact ⟨record, rfl, lines known listed same⟩
    · rename_i other
      rcases List.mem_append.1 listed with old | new
      · exact accounts.others known old
      · rw [List.mem_singleton.1 new] at other
        exact absurd rfl other

theorem store (accounts : Accounts written index) {code : ShortCode} {url : String}
    (free : index.refusal? code url = none) (owner : String) :
    Accounts (written ++ [.live code url owner]) (index.store code url owner) := by
  have missing : ∀ line ∈ written, line.code ≠ code := by
    rintro line held rfl
    obtain ⟨record, found, _⟩ := accounts.others line held
    rw [Index.record_free free] at found
    cases found
  apply accounts.append (.live code url owner) ⟨code, url, owner, false⟩
  · exact fun wanted => index.record_store code wanted url owner
  · have own : AccountsFor (written ++ [LinkRecord.liveLine ⟨code, url, owner, false⟩])
        ⟨code, url, owner, false⟩ := AccountsFor.append_live missing rfl
    exact own
  · intro known listed named
    rcases List.mem_append.1 listed with old | new
    · exact absurd named (missing known old)
    · exact .inl (List.mem_singleton.1 new)

theorem bury (accounts : Accounts written index) {code : ShortCode} {owner : String}
    (able : index.canBury code owner = true) :
    ∃ url, index.recordOf? code = some ⟨code, url, owner, false⟩ ∧
      Accounts (written ++ [.tombstone code url owner]) (index.bury code owner) := by
  obtain ⟨url, found⟩ := Index.record_buriable able
  refine ⟨url, found, ?_⟩
  apply accounts.append (.tombstone code url owner) ⟨code, url, owner, true⟩
  · intro wanted
    rw [Index.record_bury able, found]
    rfl
  · exact (accounts.records code _ found).append_tombstone rfl
  · intro known listed named
    rcases List.mem_append.1 listed with old | new
    · obtain ⟨record, same, either⟩ := accounts.others known old
      rw [named] at same
      have equal : some record = some ⟨code, url, owner, false⟩ := same.symm.trans found
      rw [Option.some.inj equal] at either
      exact either
    · exact .inr (List.mem_singleton.1 new)

theorem no_more (accounts : Accounts written index) (more : Accounts (written ++ lines) index) :
    lines = [] := by
  apply List.eq_nil_iff_forall_not_mem.2
  intro line held
  have listed : line ∈ written ++ lines := List.mem_append_right written held
  obtain ⟨record, found, either⟩ := more.others line listed
  have before := accounts.records line.code record found
  have after := more.records line.code record found
  -- The count of the line would have grown.
  have same : written.count line = (written ++ lines).count line := by
    rcases either with rfl | rfl
    · rw [before.stored, after.stored]
    · rw [before.buried, after.buried]
  have positive : 0 < lines.count line := List.count_pos_iff.2 held
  rw [List.count_append] at same
  omega

theorem contains_iff (accounts : Accounts written index) (code : ShortCode) :
    index.byCode.contains code = true ↔
      code ∈ (written.filter fun line => !line.deleted).map JournalLine.code := by
  rw [Index.contains_code_iff, List.mem_map]
  constructor
  · rintro ⟨record, found⟩
    have held : record.liveLine ∈ written := by
      apply List.count_pos_iff.1
      rw [(accounts.records code record found).stored]
      exact Nat.one_pos
    exact ⟨record.liveLine, List.mem_filter.2 ⟨held, rfl⟩, Index.record_code found⟩
  · rintro ⟨line, listed, rfl⟩
    obtain ⟨record, found, _⟩ := accounts.others line (List.mem_of_mem_filter listed)
    exact ⟨record, found⟩

end Accounts

namespace Journal

variable {written : List JournalLine} {journal next last : Journal}

/-- The log consists of the lines, and they account for the index. -/
structure Recorded (written : List JournalLine) (journal : Journal) : Prop where
  log : journal.log = written.flatMap JournalLine.bytes
  accounts : Accounts written journal.index

theorem recorded_stage (recorded : Recorded written journal) (stage : journal.Stage next) :
    ∃ lines, Recorded (written ++ lines) next := by
  cases stage with
  | same => exact ⟨[], by simpa using recorded⟩
  | @stored code url free owner =>
    refine ⟨[.live code url owner], ?_, recorded.accounts.store free owner⟩
    simp [recorded.log]
  | @buried code owner able =>
    obtain ⟨url, found, accounts⟩ := recorded.accounts.bury able
    have told : journal.urlOf code = url := by
      obtain ⟨entry, held, same⟩ := Option.map_eq_some_iff.1 found
      rw [urlOf, held]
      exact congrArg LinkRecord.url same
    refine ⟨[.tombstone code url owner], ?_, accounts⟩
    simp [recorded.log, told]

/-- At every stage a front of the lines accounts for the index that the process has then. -/
theorem recorded_path {rest : List Journal} (recorded : Recorded written journal)
    (path : Path journal rest last) :
    ∃ lines, Recorded (written ++ lines) last ∧
      ∀ stage ∈ journal :: rest, ∃ front, front <+: written ++ lines ∧ Recorded front stage := by
  induction path generalizing written with
  | nil journal =>
    refine ⟨[], by simpa using recorded, ?_⟩
    intro stage listed
    rw [List.mem_singleton.1 listed]
    exact ⟨written, List.prefix_append _ _, recorded⟩
  | cons first later induction =>
    obtain ⟨lines, between⟩ := recorded_stage recorded first
    obtain ⟨more, whole, stages⟩ := induction between
    rw [List.append_assoc] at whole
    refine ⟨lines ++ more, whole, ?_⟩
    intro stage listed
    rcases List.mem_cons.1 listed with rfl | behind
    · exact ⟨written, List.prefix_append _ _, recorded⟩
    · rw [← List.append_assoc]
      exact stages stage behind

/-- The live lines stand in the order in which their records came: at every moment the stored
codes are those of the first of them. -/
def InOrder (written : List JournalLine) (moments : List Index) : Prop :=
  ∀ index ∈ moments, ∃ count, ∀ code, index.byCode.contains code = true ↔
    code ∈ ((written.filter fun line => !line.deleted).take count).map JournalLine.code

theorem in_order_of_stages (calls : List (Disk × Ask))
    (stages : ∀ stage ∈ journal :: visited calls journal,
      ∃ front, front <+: written ∧ Recorded front stage) :
    InOrder written (passage calls journal) := by
  intro index listed
  have held := (List.destutter_sublist (· ≠ ·) _).subset listed
  obtain ⟨stage, member, rfl⟩ := List.mem_map.1 held
  obtain ⟨front, part, recorded⟩ := stages stage member
  have live := List.prefix_iff_eq_take.1 (part.filter fun line => !line.deleted)
  refine ⟨(front.filter fun line => !line.deleted).length, fun code => ?_⟩
  rw [← live]
  exact recorded.accounts.contains_iff code

/-- A call changes the log if and only if it changes the index, and only by whole lines behind
it. -/
def Appends {α : Type} (disk : Disk) (journal : Journal) (call : StoreCall α) : Prop :=
  let next := (Backend.performJournal disk journal call).2
  (next.log = journal.log ↔ next.index = journal.index) ∧
    ∃ lines : List JournalLine, next.log = journal.log ++ lines.flatMap JournalLine.bytes

theorem recorded_appends {α : Type} (recorded : Recorded written journal) (disk : Disk)
    (call : StoreCall α) : Appends disk journal call := by
  obtain ⟨lines, log, index⟩ := grown_perform disk journal call
  obtain ⟨more, after, _⟩ := recorded_path recorded (path_perform disk journal call)
  refine ⟨⟨?_, ?_⟩, lines, log⟩
  · intro same
    rw [same] at log
    have none : lines = [] := by
      cases lines with
      | nil => rfl
      | cons line lines => simp [JournalLine.bytes_eq] at log
    rw [index, none]
    rfl
  · intro same
    have accounts := after.accounts
    rw [same] at accounts
    rw [after.log, recorded.accounts.no_more accounts, List.append_nil, ← recorded.log]

/-- Whatever was called on a log that began empty, failed appends included, there is no line in
it that the index does not call for. -/
theorem log_accounts_for_index {path : String} {journal : Journal}
    (opened : (ofLog path []).outcome = .ok journal) (calls : List (Disk × Ask)) :
    ∃ written, Recorded written (session calls journal).2 ∧
      InOrder written (passage calls journal) ∧
      ∀ disk ask, Appends disk (session calls journal).2 (Ask.call ask) := by
  obtain rfl : ⟨[], Index.empty⟩ = journal := Except.ok.inj opened
  have newborn : Recorded [] ⟨[], Index.empty⟩ := ⟨rfl, Accounts.nothing⟩
  obtain ⟨written, recorded, stages⟩ := recorded_path newborn (path_session calls _)
  exact ⟨written, recorded, in_order_of_stages calls stages,
    fun disk ask => recorded_appends recorded disk ask.call⟩

/-- The second entry of the batch has the code of the first record. One tombstone is broken off, and
the others are asked for twice. -/
def repeated : List (Disk × Ask) :=
  [(.roomy, ⟨.put ⟨"a"⟩ "http://a" "u1"⟩),
    (.roomy, ⟨.putBatch [⟨⟨"b"⟩, "http://b"⟩, ⟨⟨"a"⟩, "http://c"⟩] "u2"⟩),
    (fun _ _ => some ⟨7, noSpace⟩, ⟨.markDeleted [⟨"a"⟩] "u1"⟩),
    (.roomy, ⟨.markDeleted [⟨"a"⟩, ⟨"b"⟩, ⟨"a"⟩] "u1"⟩), (.roomy, ⟨.markDeleted [⟨"a"⟩] "u1"⟩)]

theorem log_accounts_for_repeated :
    (ofLog "links.json" []).outcome = .ok ⟨[], Index.empty⟩ ∧
      ∃ written, Recorded written (session repeated ⟨[], Index.empty⟩).2 ∧
        InOrder written (passage repeated ⟨[], Index.empty⟩) ∧
        (session repeated ⟨[], Index.empty⟩).2.log =
          [.live ⟨"a"⟩ "http://a" "u1", .live ⟨"b"⟩ "http://b" "u2",
            .tombstone ⟨"a"⟩ "http://a" "u1"].flatMap JournalLine.bytes := by
  have opened : (ofLog "links.json" []).outcome = .ok ⟨[], Index.empty⟩ := rfl
  obtain ⟨written, recorded, ordered, _⟩ := log_accounts_for_index opened repeated
  exact ⟨opened, written, recorded, ordered, by decide +kernel⟩

end Journal

end ShortLinks
