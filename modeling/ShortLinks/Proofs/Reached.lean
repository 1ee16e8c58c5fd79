import ShortLinks.Proofs.JournalReplay
import ShortLinks.Proofs.LedgerHistory

/-!
# Stores as they come

A journal that was opened on a log, whatever stands in it, has the index of a ledger: of the
records that share a code or a URL only the first was taken. So has every store that began empty,
and no call changes that, also where the disk breaks off what it appends.
-/

namespace ShortLinks

set_option autoImplicit false

namespace Replay

theorem apply_ledger {ledger : Ledger} (distinct : ledger.Distinct) (line : JournalLine) :
    ∃ after : Ledger, (apply ledger.index line).outcome = after.index ∧ after.Distinct := by
  unfold apply
  split
  · exact ⟨_, Ledger.index_bury distinct line.code line.owner,
      Ledger.markDeleted_distinct distinct [line.code] line.owner⟩
  · refine ⟨_, ?_, Ledger.put_distinct distinct line.code line.url line.owner⟩
    rw [Ledger.index_insert]
    cases ledger.put line.code line.url line.owner with
    | mk answer next =>
      cases answer with
      | ok done => rfl
      | error cause => cases cause <;> rfl

theorem apply_all_ledger {ledger : Ledger} (distinct : ledger.Distinct)
    (read : List JournalLine) :
    ∃ after : Ledger, applyAll ledger.index read = after.index ∧ after.Distinct := by
  induction read generalizing ledger with
  | nil => exact ⟨ledger, rfl, distinct⟩
  | cons line read ih =>
    rcases apply_ledger distinct line with ⟨between, reached, kept⟩
    rcases ih kept with ⟨after, last, keptLast⟩
    refine ⟨after, ?_, keptLast⟩
    rw [← last, ← reached]
    rfl

theorem lines_ledger {number : Nat} {ledger : Ledger} (distinct : ledger.Distinct)
    {lines : List Text.Bytes} {index : Index}
    (replayed : (Replay.lines number ledger.index lines).outcome = .ok index) :
    ∃ after : Ledger, index = after.index ∧ after.Distinct := by
  induction lines generalizing number ledger with
  | nil =>
    cases replayed
    exact ⟨ledger, rfl, distinct⟩
  | cons line lines ih =>
    unfold Replay.lines at replayed
    split at replayed
    · cases replayed
    · exact ih distinct replayed
    · rename_i read _
      rcases apply_ledger distinct read with ⟨between, reached, kept⟩
      simp only [reached] at replayed
      exact ih kept replayed

end Replay

namespace Backend

/-- A store as it was opened, on any log where it is a journal, and after any calls on any disk
while it is not shut down. A database may be connected to again. -/
inductive Reached : Backend → Prop
  | memory : Reached (.memory Index.empty)
  | journal {path : String} {log : Text.Bytes} {journal : Journal}
      (opened : (Journal.ofLog path log).outcome = .ok journal) : Reached (.journal path journal)
  | database {database : Database} (connected : (Database.connect .fresh).1 = .ok database) :
      Reached (.database database)
  | connectedAgain {database next : Database} (before : Reached (.database database))
      (connected : (Database.connect database.file).1 = .ok next) : Reached (.database next)
  | call {α : Type} {backend : Backend} (before : Reached backend) (disk : Disk)
      (call : StoreCall α) (going : call.method ≠ .shutdown) :
      Reached (backend.perform disk call).backend

theorem holds_call {α : Type} {backend : Backend} {ledger : Ledger}
    (holds : backend.Holds ledger) (disk : Disk) (call : StoreCall α)
    (going : call.method ≠ .shutdown) :
    ∃ after, (backend.perform disk call).backend.Holds after := by
  cases backend with
  | journal path journal =>
    have indexed : journal.index = ledger.index := holds.keeps
    rcases Journal.grown_perform disk journal call with ⟨written, _, index⟩
    rw [indexed] at index
    rcases Replay.apply_all_ledger holds.distinct written with ⟨after, reached, distinct⟩
    exact ⟨after, index.trans reached, distinct⟩
  | memory index =>
    have same : index = ledger.index := holds.keeps
    subst same
    exact ⟨_, congrArg Prod.snd (memory_as_ledger holds.distinct call),
      Ledger.perform_distinct holds.distinct .keepLeading call⟩
  | database database =>
    by_cases records : (Ask.mk call).aboutRecords = true
    · exact ⟨_, (holds_perform holds call records).2⟩
    · cases call with
      | probe => exact ⟨ledger, holds⟩
      | shutdown => exact absurd rfl going
      | _ => exact absurd rfl records

/-- Each of them holds a ledger. -/
theorem reached_holds {backend : Backend} (reached : backend.Reached) :
    ∃ ledger, backend.Holds ledger := by
  induction reached with
  | memory => exact ⟨Ledger.empty, rfl, Ledger.empty_distinct⟩
  | journal opened =>
    rcases Journal.open_replayed opened with ⟨_, replayed⟩
    exact (Replay.lines_ledger Ledger.empty_distinct replayed).imp fun _ kept => ⟨kept.1, kept.2⟩
  | database connected => exact ⟨Ledger.empty, newborn_holds connected⟩
  | connectedAgain before connected ih =>
    rcases ih with ⟨ledger, keeps, distinct⟩
    have same : _ = ledger.database := keeps
    subst same
    -- The table has been made already, so connecting to it changes nothing.
    have kept : (Database.connect ledger.database.file).1 = .ok ledger.database := rfl
    rw [kept] at connected
    exact ⟨ledger, (Except.ok.inj connected).symm, distinct⟩
  | call before disk call going ih =>
    rcases ih with ⟨ledger, holds⟩
    exact holds_call holds disk call going

end Backend

end ShortLinks
