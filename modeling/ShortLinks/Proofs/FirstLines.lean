import ShortLinks.Proofs.JournalCut
import ShortLinks.Proofs.LedgerHistory
import Mathlib.Data.List.Sort

/-!
# What replay keeps

A log may hold anything that can be read: codes and URLs that come again, tombstones before their
records or for other owners. Which records its index has can be told from the lines alone. A line
is kept unless a line that was kept before has its code or its URL, so a line that is not kept
leaves both of its keys as it found them.
-/

namespace ShortLinks

set_option autoImplicit false

open Text (Bytes splitLines)

namespace Replay

/-- What lines of bytes say, blank ones left out. -/
def said (lines : List Bytes) : Except JournalLine.Flaw (List JournalLine) :=
  (lines.mapM JournalLine.read).map fun found => found.filterMap id

theorem said_cons_ok {line : Bytes} {found : Option JournalLine}
    (readable : JournalLine.read line = .ok found) (lines : List Bytes) :
    said (line :: lines) = (said lines).map (found.toList ++ ·) := by
  rw [said, List.mapM_cons, readable, said]
  cases lines.mapM JournalLine.read <;> cases found <;> rfl

theorem said_cons_error {line : Bytes} {flaw : JournalLine.Flaw}
    (broken : JournalLine.read line = .error flaw) (lines : List Bytes) :
    said (line :: lines) = .error flaw := by
  rw [said, List.mapM_cons, broken]
  rfl

/-- Replay succeeds if every line can be read, and then only what they say matters. -/
theorem lines_ok_iff {number : Nat} {index last : Index} {lines : List Bytes} :
    (Replay.lines number index lines).outcome = .ok last ↔
      ∃ read, said lines = .ok read ∧ applyAll index read = last := by
  induction lines generalizing number index with
  | nil => simp [Replay.lines, said, applyAll, pure, Except.pure, Except.map]
  | cons line lines ih =>
    cases found : JournalLine.read line with
    | error flaw => simp [Replay.lines, said_cons_error found, found]
    | ok outcome =>
      have behind : ∀ later : Index,
          (∃ read, (said lines).map (outcome.toList ++ ·) = .ok read ∧
            applyAll index read = later) ↔
          ∃ read, said lines = .ok read ∧
            applyAll (applyAll index outcome.toList) read = later := by
        intro later
        cases said lines <;> simp [Except.map, apply_all_append]
      rw [said_cons_ok found, behind]
      cases outcome with
      | none =>
        simp only [Replay.lines, found]
        exact ih
      | some line =>
        simp only [Replay.lines, found]
        exact ih

theorem replay_ok_iff {log : Bytes} {index : Index} :
    (replay log).outcome = .ok index ↔
      ∃ read, said (splitLines log) = .ok read ∧ applyAll Index.empty read = index :=
  lines_ok_iff

abbrev Placed := JournalLine × Nat

def Before (first second : Placed) : Prop := first.2 < second.2

instance : Std.Irrefl Before := ⟨fun placed => Nat.lt_irrefl placed.2⟩

instance : Std.Antisymm Before := ⟨fun _ _ less more => absurd more (Nat.lt_asymm less)⟩

instance (first second : Placed) : Decidable (Before first second) :=
  inferInstanceAs (Decidable (first.2 < second.2))

def live (read : List JournalLine) : List Placed :=
  read.zipIdx.filter fun placed => !placed.1.deleted

/-- Of the live lines those are kept that share neither code nor URL, and every other one shares
its code or its URL with a kept line before it. -/
structure Keeps (read : List JournalLine) (kept : List Placed) : Prop where
  among : kept.Sublist (live read)
  codes : (kept.map fun placed => placed.1.code).Nodup
  urls : (kept.map fun placed => placed.1.url).Nodup
  others : ∀ placed ∈ live read, placed ∉ kept → ∃ earlier ∈ kept, Before earlier placed ∧
    (earlier.1.code = placed.1.code ∨ earlier.1.url = placed.1.url)

variable {read : List JournalLine} {kept : List Placed} {line : JournalLine}

theorem live_in_order (read : List JournalLine) : (live read).Pairwise Before := by
  have places : (read.zipIdx.map Prod.snd).Pairwise (· < ·) := by
    rw [List.zipIdx_map_snd]
    exact List.pairwise_lt_range'
  rw [List.pairwise_map] at places
  exact List.Pairwise.filter _ places

/-- A line is kept in one way if it is in the other and both agree on the lines before it. -/
theorem kept_in_both {first second : List Placed} (one : Keeps read first)
    (other : Keeps read second) {placed : Placed}
    (before : ∀ earlier, Before earlier placed → (earlier ∈ first ↔ earlier ∈ second))
    (held : placed ∈ first) : placed ∈ second := by
  by_contra missing
  rcases other.others placed (one.among.subset held) missing with ⟨earlier, kept, less, clash⟩
  have both : earlier ∈ first := (before earlier less).2 kept
  have same : earlier = placed := by
    rcases clash with code | url
    · exact List.inj_on_of_nodup_map one.codes both held code
    · exact List.inj_on_of_nodup_map one.urls both held url
  rw [same] at less
  exact Nat.lt_irrefl _ less

theorem keeps_unique {first second : List Placed} (one : Keeps read first)
    (other : Keeps read second) : first = second := by
  have same : ∀ (place : Nat) (placed : Placed), placed.2 = place →
      (placed ∈ first ↔ placed ∈ second) := by
    intro place
    induction place using Nat.strongRecOn with
    | ind place ih =>
      rintro placed rfl
      have before : ∀ earlier, Before earlier placed → (earlier ∈ first ↔ earlier ∈ second) :=
        fun earlier less => ih earlier.2 less earlier rfl
      exact ⟨kept_in_both one other before,
        kept_in_both other one fun earlier less => (before earlier less).symm⟩
  have sorted := live_in_order read
  exact (sorted.sublist one.among).eq_of_mem_iff (sorted.sublist other.among)
    fun placed => same placed.2 placed rfl

theorem live_append (read : List JournalLine) (line : JournalLine) :
    live (read ++ [line]) =
      live read ++ if line.deleted then [] else [(line, read.length)] := by
  rw [live, List.zipIdx_append, List.filter_append]
  cases flag : line.deleted <;> simp [live, flag]

theorem place_lt {placed : Placed} (listed : placed ∈ live read) : placed.2 < read.length := by
  have held := (List.mem_zipIdx (List.mem_of_mem_filter listed)).2.1
  omega

/-- The line is a tombstone, or it clashes with a line that is kept. -/
theorem keeps_passed (keeps : Keeps read kept)
    (passed : line.deleted = false →
      ∃ earlier ∈ kept, earlier.1.code = line.code ∨ earlier.1.url = line.url) :
    Keeps (read ++ [line]) kept := by
  refine ⟨?_, keeps.codes, keeps.urls, ?_⟩
  · rw [live_append]
    exact keeps.among.trans (List.sublist_append_left _ _)
  · intro placed listed missing
    rw [live_append, List.mem_append] at listed
    rcases listed with old | new
    · exact keeps.others placed old missing
    · cases flag : line.deleted with
      | true => simp [flag] at new
      | false =>
        obtain rfl : placed = (line, read.length) := by simpa [flag] using new
        rcases passed flag with ⟨earlier, held, clash⟩
        exact ⟨earlier, held, place_lt (keeps.among.subset held), clash⟩

theorem keeps_added (keeps : Keeps read kept) (recorded : line.deleted = false)
    (free : ∀ earlier ∈ kept, earlier.1.code ≠ line.code ∧ earlier.1.url ≠ line.url) :
    Keeps (read ++ [line]) (kept ++ [(line, read.length)]) := by
  have listed : live (read ++ [line]) = live read ++ [(line, read.length)] := by
    simp [live_append, recorded]
  refine ⟨?_, ?_, ?_, ?_⟩
  · rw [listed]
    exact keeps.among.append_right _
  · have new : line.code ∉ kept.map fun placed => placed.1.code := by
      intro taken
      rcases List.mem_map.1 taken with ⟨earlier, known, same⟩
      exact (free earlier known).1 same
    rw [List.map_append]
    exact keeps.codes.append (List.nodup_singleton _) (List.disjoint_singleton.2 new)
  · have new : line.url ∉ kept.map fun placed => placed.1.url := by
      intro taken
      rcases List.mem_map.1 taken with ⟨earlier, known, same⟩
      exact (free earlier known).2 same
    rw [List.map_append]
    exact keeps.urls.append (List.nodup_singleton _) (List.disjoint_singleton.2 new)
  · intro placed found missing
    rw [List.mem_append, not_or] at missing
    rw [listed, List.mem_append] at found
    rcases found with old | new
    · rcases keeps.others placed old missing.1 with ⟨earlier, held, clash⟩
      exact ⟨earlier, List.mem_append_left _ held, clash⟩
    · exact absurd new missing.2

def buriedLater (read : List JournalLine) (placed : Placed) : Bool :=
  read.zipIdx.any fun later =>
    decide (Before placed later) && later.1.deleted && later.1.code == placed.1.code &&
      later.1.owner == placed.1.owner

/-- The record that a line sets and later tombstones bury. -/
def recordOf (read : List JournalLine) (placed : Placed) : LinkRecord :=
  ⟨placed.1.code, placed.1.url, placed.1.owner, buriedLater read placed⟩

def ledgerOf (read : List JournalLine) (kept : List Placed) : Ledger :=
  ⟨kept.map (recordOf read)⟩

theorem keeps_distinct (keeps : Keeps read kept) : (ledgerOf read kept).Distinct := by
  constructor
  · simpa [ledgerOf, recordOf, Function.comp_def] using keeps.codes
  · simpa [ledgerOf, recordOf, Function.comp_def] using keeps.urls

theorem buried_later_append {placed : Placed} (listed : placed ∈ live read)
    (line : JournalLine) :
    buriedLater (read ++ [line]) placed =
      (buriedLater read placed || (line.deleted && line.code == placed.1.code &&
        line.owner == placed.1.owner)) := by
  have before : Before placed (line, read.length) := place_lt listed
  simp [buriedLater, List.zipIdx_append, before]

theorem ledger_of_tombstone (keeps : Keeps read kept) (tombstone : line.deleted = true) :
    ledgerOf (read ++ [line]) kept = (ledgerOf read kept).markDeleted [line.code] line.owner := by
  have each : kept.map (recordOf (read ++ [line])) =
      kept.map (Ledger.buried [line.code] line.owner ∘ recordOf read) := by
    apply List.map_congr_left
    intro placed held
    simp only [recordOf, buried_later_append (keeps.among.subset held), tombstone,
      Function.comp_apply, Ledger.buried, List.mem_singleton]
    by_cases named : line.owner = placed.1.owner ∧ line.code = placed.1.code
    · rw [if_pos ⟨named.1.symm, named.2.symm⟩]
      simp [named]
    · rw [if_neg fun own => named ⟨own.1.symm, own.2.symm⟩]
      have other : (line.code == placed.1.code && line.owner == placed.1.owner) = false := by
        simpa using fun code owner => named ⟨owner, code⟩
      simp [other]
  rw [ledgerOf, each, ← List.map_map]
  rfl

theorem ledger_of_live (keeps : Keeps read kept) (recorded : line.deleted = false) :
    ledgerOf (read ++ [line]) kept = ledgerOf read kept := by
  have each : kept.map (recordOf (read ++ [line])) = kept.map (recordOf read) := by
    apply List.map_congr_left
    intro placed held
    simp [recordOf, buried_later_append (keeps.among.subset held), recorded]
  rw [ledgerOf, each, ledgerOf]

theorem record_of_last (read : List JournalLine) (line : JournalLine) :
    recordOf (read ++ [line]) (line, read.length) = ⟨line.code, line.url, line.owner, false⟩ := by
  have none : buriedLater (read ++ [line]) (line, read.length) = false := by
    rw [buriedLater, List.any_eq_false]
    intro later listed
    have place := (List.mem_zipIdx listed).2.1
    have behind : ¬ Before (line, read.length) later := by
      simp at place
      simp [Before]
      omega
    simp [behind]
  rw [recordOf, none]

theorem free_iff : (ledgerOf read kept).refusal? line.code line.url = none ↔
    ∀ earlier ∈ kept, earlier.1.code ≠ line.code ∧ earlier.1.url ≠ line.url := by
  rw [Ledger.refusal_none_iff]
  simp only [ledgerOf, List.map_map, List.mem_map, Function.comp_apply, recordOf, not_exists,
    not_and]
  constructor
  · rintro ⟨urls, codes⟩ earlier held
    exact ⟨codes earlier held, urls earlier held⟩
  · intro free
    exact ⟨fun earlier held => (free earlier held).2, fun earlier held => (free earlier held).1⟩

theorem apply_refused {index : Index} {error : StorageError} (recorded : line.deleted = false)
    (refused : index.refusal? line.code line.url = some error) :
    (apply index line).outcome = index := by
  simp only [apply, recorded, Bool.false_eq_true, if_false, Index.insert, refused]
  cases error <;> rfl

theorem apply_free {index : Index} (recorded : line.deleted = false)
    (free : index.refusal? line.code line.url = none) :
    (apply index line).outcome = index.store line.code line.url line.owner := by
  simp only [apply, recorded, Bool.false_eq_true, if_false, Index.insert, free]

theorem ledger_of_added (keeps : Keeps read kept) (recorded : line.deleted = false) :
    ledgerOf (read ++ [line]) (kept ++ [(line, read.length)]) =
      (ledgerOf read kept).extend line.code line.url line.owner := by
  have old := congrArg Ledger.records (ledger_of_live keeps recorded)
  simp only [ledgerOf] at old
  rw [ledgerOf, List.map_append, old, List.map_singleton, record_of_last]
  rfl

/-- One more line buries a record, or is passed over, or adds a record, and the kept lines
follow. -/
theorem keeps_next (keeps : Keeps read kept) (line : JournalLine) :
    ∃ next, Keeps (read ++ [line]) next ∧
      (apply (ledgerOf read kept).index line).outcome =
        (ledgerOf (read ++ [line]) next).index := by
  cases flag : line.deleted with
  | true =>
    have passed : Keeps (read ++ [line]) kept := keeps_passed keeps (by simp [flag])
    refine ⟨kept, passed, ?_⟩
    rw [ledger_of_tombstone keeps flag, ← Ledger.index_bury (keeps_distinct keeps), apply, flag]
    rfl
  | false =>
    cases refused : (ledgerOf read kept).refusal? line.code line.url with
    | some error =>
      have passed : Keeps (read ++ [line]) kept := by
        apply keeps_passed keeps
        intro _
        by_contra nobody
        simp only [not_exists, not_and, not_or] at nobody
        rw [free_iff.2 nobody] at refused
        cases refused
      rw [← Ledger.index_refusal] at refused
      exact ⟨kept, passed, by rw [apply_refused flag refused, ledger_of_live keeps flag]⟩
    | none =>
      refine ⟨kept ++ [(line, read.length)], keeps_added keeps flag (free_iff.1 refused), ?_⟩
      rw [ledger_of_added keeps flag, ← Ledger.index_store refused]
      exact apply_free flag ((Ledger.index_refusal _ _ _).trans refused)

/-- Some lines are kept, and the index holds their records. -/
theorem keeps_replayed (read : List JournalLine) :
    ∃ kept, Keeps read kept ∧ applyAll Index.empty read = (ledgerOf read kept).index := by
  induction read using List.reverseRecOn with
  | nil => exact ⟨[], ⟨List.Sublist.refl _, List.nodup_nil, List.nodup_nil, by simp [live]⟩, rfl⟩
  | append_singleton read line ih =>
    rcases ih with ⟨kept, keeps, reached⟩
    rcases keeps_next keeps line with ⟨next, after, last⟩
    refine ⟨next, after, ?_⟩
    rw [apply_all_append, reached, ← last]
    rfl

theorem applied_kept (keeps : Keeps read kept) :
    applyAll Index.empty read = (ledgerOf read kept).index := by
  rcases keeps_replayed read with ⟨found, held, reached⟩
  rw [reached, keeps_unique held keeps]

theorem live_front (front back : List JournalLine) :
    live front = (live (front ++ back)).filter fun placed => placed.2 < front.length := by
  have within : (live front).filter (fun placed => placed.2 < front.length) = live front := by
    apply List.filter_eq_self.2
    intro placed listed
    simpa using place_lt listed
  have behind : ((back.zipIdx front.length).filter fun placed => !placed.1.deleted).filter
      (fun placed => placed.2 < front.length) = [] := by
    apply List.filter_eq_nil_iff.2
    intro placed listed
    have place := (List.mem_zipIdx (List.mem_of_mem_filter listed)).1
    simpa using place
  have split : live (front ++ back) =
      live front ++ (back.zipIdx front.length).filter fun placed => !placed.1.deleted := by
    rw [live, List.zipIdx_append, List.filter_append, live, Nat.zero_add]
  rw [split, List.filter_append, within, behind, List.append_nil]

theorem keeps_front {front back : List JournalLine} (keeps : Keeps (front ++ back) kept) :
    Keeps front (kept.filter fun placed => placed.2 < front.length) := by
  refine ⟨?_, ?_, ?_, ?_⟩
  · rw [live_front front back]
    exact keeps.among.filter _
  · exact keeps.codes.sublist (List.filter_sublist.map _)
  · exact keeps.urls.sublist (List.filter_sublist.map _)
  · intro placed held missing
    have inside := place_lt held
    rw [live_front front back] at held
    have dropped : placed ∉ kept := by
      simpa [inside] using missing
    rcases keeps.others placed (List.mem_of_mem_filter held) dropped with
      ⟨earlier, known, before, clash⟩
    refine ⟨earlier, ?_, before, clash⟩
    simpa using ⟨known, before.trans inside⟩

theorem applied_without {front back : List JournalLine}
    (keeps : Keeps (front ++ line :: back) kept) (recorded : line.deleted = false)
    (missing : (line, front.length) ∉ kept) :
    applyAll Index.empty (front ++ back) = applyAll Index.empty (front ++ line :: back) := by
  have listed : (line, front.length) ∈ live (front ++ line :: back) := by
    simp [live, List.zipIdx_append, recorded]
  rcases keeps.others _ listed missing with ⟨earlier, known, before, clash⟩
  have early := keeps_front keeps
  have held : earlier ∈ kept.filter fun placed => placed.2 < front.length := by
    simpa using ⟨known, before⟩
  have same : (apply (applyAll Index.empty front) line).outcome = applyAll Index.empty front := by
    rw [applied_kept early]
    cases refused : (ledgerOf front _).index.refusal? line.code line.url with
    | some error => exact apply_refused recorded refused
    | none =>
      rw [Ledger.index_refusal, free_iff] at refused
      exact absurd clash (not_or.2 (refused earlier held))
  rw [apply_all_append, apply_all_append]
  exact congrArg (fun index => applyAll index back) same.symm

/-- The index answers as the kept lines say, and a live line that is not kept might as well not
stand in the log. -/
structure Tells (read : List JournalLine) (kept : List Placed) (index : Index) : Prop where
  whole : index = (ledgerOf read kept).index
  records : ∀ code record, index.recordOf? code = some record ↔
    ∃ placed ∈ kept, placed.1.code = code ∧ record = recordOf read placed
  codes : ∀ url code, index.findUrl url = some code ↔
    ∃ placed ∈ kept, placed.1.url = url ∧ placed.1.code = code
  lists : ∀ owner, index.listByOwner owner =
    (kept.filter fun placed => placed.1.owner == owner).map (recordOf read)
  resolved : ∀ placed ∈ kept, index.get placed.1.code =
    if (recordOf read placed).deleted then .error (.deleted placed.1.code.text)
    else .ok (some placed.1.url)
  unknown : ∀ code, (∀ placed ∈ kept, placed.1.code ≠ code) → index.get code = .ok none
  buried : ∀ placed ∈ kept, (recordOf read placed).deleted = true ↔
    ∃ later ∈ read.zipIdx, Before placed later ∧ later.1.deleted = true ∧
      later.1.code = placed.1.code ∧ later.1.owner = placed.1.owner
  traceless : ∀ front line back, read = front ++ line :: back → line.deleted = false →
    (line, front.length) ∉ kept → ∀ shorter, said (splitLines shorter) = .ok (front ++ back) →
      (replay shorter).outcome = .ok index

theorem find_record (keeps : Keeps read kept) {placed : Placed} (held : placed ∈ kept) :
    (ledgerOf read kept).records.find? (·.code == placed.1.code) =
      some (recordOf read placed) :=
  Ledger.find_code_of_mem (keeps_distinct keeps) (List.mem_map_of_mem held)

theorem record_iff (keeps : Keeps read kept) (code : ShortCode) (record : LinkRecord) :
    (ledgerOf read kept).index.recordOf? code = some record ↔
      ∃ placed ∈ kept, placed.1.code = code ∧ record = recordOf read placed := by
  constructor
  · intro found
    rw [Index.recordOf?, Ledger.index_find_code, Option.map_map, Option.map_eq_some_iff] at found
    rcases found with ⟨known, held, rfl⟩
    have named : known.code = code := by simpa using List.find?_some held
    rcases List.mem_map.1 (List.mem_of_find?_eq_some held) with ⟨placed, listed, rfl⟩
    exact ⟨placed, listed, named, by rw [← named]; rfl⟩
  · rintro ⟨placed, held, rfl, rfl⟩
    exact Ledger.index_record_of_mem (keeps_distinct keeps) (List.mem_map_of_mem held)

theorem code_iff (keeps : Keeps read kept) (url : String) (code : ShortCode) :
    (ledgerOf read kept).index.findUrl url = some code ↔
      ∃ placed ∈ kept, placed.1.url = url ∧ placed.1.code = code := by
  rw [Index.findUrl, Ledger.index_find_url]
  constructor
  · intro found
    rcases Ledger.record_of_find_url found with ⟨record, held, same, named⟩
    rcases List.mem_map.1 held with ⟨placed, listed, rfl⟩
    exact ⟨placed, listed, same, named⟩
  · rintro ⟨placed, held, rfl, rfl⟩
    exact Ledger.find_url_of_mem (keeps_distinct keeps)
      (List.mem_map_of_mem (f := recordOf read) held)

theorem listed_kept (keeps : Keeps read kept) (owner : String) :
    (ledgerOf read kept).index.listByOwner owner =
      (kept.filter fun placed => placed.1.owner == owner).map (recordOf read) := by
  rw [Ledger.index_listByOwner (keeps_distinct keeps), Ledger.listByOwner, ledgerOf,
    List.filter_map]
  rfl

theorem buried_iff (read : List JournalLine) (placed : Placed) :
    (recordOf read placed).deleted = true ↔
      ∃ later ∈ read.zipIdx, Before placed later ∧ later.1.deleted = true ∧
        later.1.code = placed.1.code ∧ later.1.owner = placed.1.owner := by
  simp only [recordOf, buriedLater, List.any_eq_true, Bool.and_eq_true, decide_eq_true_eq,
    beq_iff_eq, and_assoc]

theorem tells_kept (keeps : Keeps read kept) :
    Tells read kept (applyAll Index.empty read) := by
  have whole := applied_kept keeps
  refine ⟨whole, ?_, ?_, ?_, ?_, ?_, fun placed _ => buried_iff read placed, ?_⟩
  · rw [whole]
    exact record_iff keeps
  · rw [whole]
    exact code_iff keeps
  · rw [whole]
    exact listed_kept keeps
  · intro placed held
    rw [whole, Ledger.index_get, Ledger.get, find_record keeps held]
    rfl
  · intro code nobody
    have missing : (ledgerOf read kept).records.find? (·.code == code) = none := by
      apply List.find?_eq_none.2
      intro record held
      rcases List.mem_map.1 held with ⟨placed, listed, rfl⟩
      simpa [recordOf] using nobody placed listed
    rw [whole, Ledger.index_get, Ledger.get, missing]
  · rintro front line back rfl recorded missing shorter same
    rw [replay_ok_iff]
    exact ⟨_, same, applied_without keeps recorded missing⟩

/-- A log that is replayed, whoever wrote it, has its kept lines: there is exactly one choice of
them, and the index knows their records and nothing else. -/
theorem replay_tells_kept_lines {log : Bytes} {index : Index}
    (replayed : (replay log).outcome = .ok index) :
    ∃ read, said (splitLines log) = .ok read ∧ (∃! kept, Keeps read kept) ∧
      ∀ kept, Keeps read kept → Tells read kept index := by
  rcases replay_ok_iff.1 replayed with ⟨read, readable, rfl⟩
  rcases keeps_replayed read with ⟨kept, keeps, _⟩
  exact ⟨read, readable, ⟨kept, keeps, fun other held => keeps_unique held keeps⟩,
    fun other held => tells_kept held⟩

theorem said_written (written : List JournalLine) :
    said (splitLines (written.flatMap JournalLine.bytes)) = .ok written := by
  rw [split_written]
  induction written with
  | nil => rfl
  | cons line written ih =>
    rw [List.map_cons, said_cons_ok line.read_body, ih]
    rfl

/-- The second line is passed over for its code, so its URL is free for the third. The fourth is
passed over for its URL. The first tombstone is not the owner's, the second tells a wrong URL, and
the third is for a line that is not kept. -/
def contested : List JournalLine :=
  [.live ⟨"a"⟩ "http://1" "u1", .live ⟨"a"⟩ "http://2" "u2", .live ⟨"b"⟩ "http://2" "",
    .live ⟨"c"⟩ "http://1" "u3", .tombstone ⟨"a"⟩ "http://1" "u2", .tombstone ⟨"b"⟩ "http://9" "",
    .tombstone ⟨"c"⟩ "http://1" "u3"]

theorem contested_tells_kept_lines :
    ∃ index, (replay (contested.flatMap JournalLine.bytes)).outcome = .ok index ∧
      index.get ⟨"a"⟩ = .ok (some "http://1") ∧ index.get ⟨"b"⟩ = .error (.deleted "b") ∧
      index.get ⟨"c"⟩ = .ok none ∧ index.findUrl "http://2" = some ⟨"b"⟩ := by
  have replayed := Journal.replay_written contested
  refine ⟨_, replayed, ?_⟩
  rcases replay_tells_kept_lines replayed with ⟨read, readable, _, tells⟩
  rw [said_written] at readable
  obtain rfl : contested = read := Except.ok.inj readable
  have kept := tells [(.live ⟨"a"⟩ "http://1" "u1", 0), (.live ⟨"b"⟩ "http://2" "", 2)]
    ⟨by decide +kernel, by decide +kernel, by decide +kernel, by decide +kernel⟩
  have second := List.mem_cons_of_mem (JournalLine.live ⟨"a"⟩ "http://1" "u1", 0)
    (List.mem_singleton_self (JournalLine.live ⟨"b"⟩ "http://2" "", 2))
  refine ⟨kept.resolved _ List.mem_cons_self, kept.resolved _ second, ?_, ?_⟩
  · exact kept.unknown ⟨"c"⟩ (by decide)
  · exact (kept.codes "http://2" ⟨"b"⟩).2 ⟨_, second, rfl, rfl⟩

end Replay

end ShortLinks
