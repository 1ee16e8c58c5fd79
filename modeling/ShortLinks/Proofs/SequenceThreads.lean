import ShortLinks.Proofs.Desk
import ShortLinks.Proofs.SequenceCodes
import Mathlib.Data.List.Intervals
import Mathlib.Data.List.Perm.Basic

/-!
# Threads that draw from one sequence

A thread draws a code in two steps. It takes the counter, which moves on at once, and writes the
code from what it took; in between others may take and write. The place of a code is that of its
counter among all that were taken. Whatever the order of the steps, the codes that are written and
those that threads are about to write are the codes of the sequence, each place once. So threads
draw together what one of them would draw alone.
-/

namespace ShortLinks

set_option autoImplicit false

/-- A counter that a thread has taken, and how many were taken before it. -/
structure Taking where
  place : Nat
  counter : UInt64

/-- A code that was drawn, at the place of its counter. -/
structure PlacedCode where
  place : Nat
  code : ShortCode

/-- A sequence, how many counters were taken from it, and what each thread has taken and not
written. -/
structure SharedSequence where
  sequence : CodeSequence
  taken : Nat
  threads : List (Option Taking)

namespace CodeSequence

def write (sequence : CodeSequence) (taking : Taking) : PlacedCode :=
  ⟨taking.place, sequence.codeAt taking.counter⟩

def placedAt (sequence : CodeSequence) (place : Nat) : PlacedCode :=
  ⟨place, sequence.drawnAt place⟩

end CodeSequence

namespace SharedSequence

/-- A thread takes a counter, or writes the code of the one it has. -/
inductive Step
  | take (thread : Nat)
  | write (thread : Nat)

def start (sequence : CodeSequence) (threads : Nat) : SharedSequence :=
  ⟨sequence, 0, List.replicate threads none⟩

def step? (shared : SharedSequence) : Step → Option (SharedSequence × List PlacedCode)
  | .take thread =>
      match shared.threads[thread]? with
      | some none =>
          let taking : Taking := ⟨shared.taken, shared.sequence.next⟩
          some ({
            sequence := shared.sequence.draw.2
            taken := shared.taken + 1
            threads := shared.threads.set thread (some taking) }, [])
      | _ => none
  | .write thread =>
      match shared.threads[thread]? with
      | some (some taking) =>
          some ({ shared with threads := shared.threads.set thread none },
            [shared.sequence.write taking])
      | _ => none

def run? (steps : List Step) (shared : SharedSequence) :
    Option (SharedSequence × List PlacedCode) :=
  takeAll? step? steps shared

def awaited (shared : SharedSequence) : List PlacedCode :=
  shared.threads.filterMap (Option.map shared.sequence.write)

def firstCodes (count : Nat) (codes : List PlacedCode) : List ShortCode :=
  (codes.filter fun one => decide (one.place < count)).map PlacedCode.code

variable {first : CodeSequence} {shared next : SharedSequence} {written made : List PlacedCode}

/-- The sequence has moved on by as many counters as were taken, and each of these has its code,
written or awaited. -/
structure Accounted (first : CodeSequence) (shared : SharedSequence) (written : List PlacedCode) :
    Prop where
  sequence : shared.sequence = ⟨first.stem, first.counterAt shared.taken⟩
  codes : (written ++ shared.awaited).Perm ((List.range shared.taken).map first.placedAt)

theorem accounted_start (sequence : CodeSequence) (threads : Nat) :
    Accounted sequence (start sequence threads) [] := by
  constructor
  · rw [CodeSequence.counterAt]
    simp [start]
  · have nothing : (start sequence threads).awaited = [] := by
      simp [awaited, start]
    rw [nothing]
    exact List.Perm.refl []

theorem awaited_busy {threads : List (Option Taking)} {thread : Nat}
    (idle : threads[thread]? = some none) (taking : Taking) (write : Taking → PlacedCode) :
    ((threads.set thread (some taking)).filterMap (Option.map write)).Perm
      (write taking :: threads.filterMap (Option.map write)) := by
  rcases List.getElem?_eq_some_iff.1 idle with ⟨inside, same⟩
  have busy := (List.set_perm_cons_eraseIdx inside (some taking)).filterMap (Option.map write)
  have before := (List.getElem_cons_eraseIdx_perm inside).filterMap (Option.map write)
  rw [same, List.filterMap_cons_none rfl] at before
  exact busy.trans (before.cons _)

theorem accounted_take (held : Accounted first shared written) {thread : Nat}
    (stepped : shared.step? (.take thread) = some (next, made)) :
    Accounted first next (written ++ made) := by
  simp only [step?] at stepped
  split at stepped
  · rename_i idle
    cases stepped
    constructor
    · rw [held.sequence, CodeSequence.counterAt_succ]
      rfl
    · -- Codes are written from the stem alone, so the others' are awaited as before.
      have added := awaited_busy idle ⟨shared.taken, shared.sequence.next⟩ shared.sequence.write
      have new : shared.sequence.write ⟨shared.taken, shared.sequence.next⟩ =
          first.placedAt shared.taken := by
        rw [held.sequence]
        rfl
      rw [new] at added
      rw [List.append_nil, List.range_succ, List.map_append]
      apply (added.append_left written).trans
      apply List.perm_middle.trans
      apply (held.codes.cons _).trans
      exact (List.perm_append_singleton _ _).symm
  · cases stepped

theorem accounted_write (held : Accounted first shared written) {thread : Nat}
    (stepped : shared.step? (.write thread) = some (next, made)) :
    Accounted first next (written ++ made) := by
  simp only [step?] at stepped
  split at stepped
  · rename_i taking busy
    cases stepped
    rcases List.getElem?_eq_some_iff.1 busy with ⟨inside, same⟩
    have idle : (shared.threads.set thread none)[thread]? = some none :=
      List.getElem?_set_self inside
    have back : (shared.threads.set thread none).set thread (some taking) = shared.threads := by
      rw [List.set_set, ← same, List.set_getElem_self]
    have removed := awaited_busy idle taking shared.sequence.write
    rw [back] at removed
    constructor
    · exact held.sequence
    · rw [List.append_assoc]
      exact (removed.symm.append_left written).trans held.codes
  · cases stepped

theorem accounted_step {step : Step} (held : Accounted first shared written)
    (stepped : shared.step? step = some (next, made)) :
    Accounted first next (written ++ made) := by
  cases step with
  | take thread => exact accounted_take held stepped
  | write thread => exact accounted_write held stepped

theorem accounted_run {threads : Nat} {steps : List Step}
    (ran : run? steps (start first threads) = some (shared, written)) :
    Accounted first shared written :=
  take_all_keeps (Accounted first) accounted_step (accounted_start first threads) ran

theorem first_codes_placed (sequence : CodeSequence) (count taken : Nat) :
    firstCodes count ((List.range taken).map sequence.placedAt) =
      (sequence.drawMany count).1.take taken := by
  have places : (List.range taken).filter (fun place => decide (place < count)) =
      (List.range count).take taken := by
    rw [List.take_range, ← List.Ico.zero_bot, ← List.Ico.zero_bot, List.Ico.filter_lt]
  rw [firstCodes, List.filter_map, List.map_map, CodeSequence.drawMany_codes, ← List.map_take,
    ← places]
  rfl

/-- Of the first codes of the sequence, those whose counters were taken are written or awaited. -/
theorem first_codes_perm (held : Accounted first shared written) (count : Nat) :
    (firstCodes count (written ++ shared.awaited)).Perm
      ((first.drawMany count).1.take shared.taken) := by
  rw [← first_codes_placed]
  exact (held.codes.filter _).map _

theorem placed_of_accounted (held : Accounted first shared written) {one : PlacedCode}
    (member : one ∈ written ++ shared.awaited) : one.code = first.drawnAt one.place := by
  rcases List.mem_map.1 (held.codes.subset member) with ⟨place, _, rfl⟩
  rfl

/-- However many threads draw from a sequence, and in whatever order they take their steps, the
codes at the first 2^64 places or fewer differ, and they are those that one thread draws alone. The
code at a place tells the counter that is so far behind the first, where zero follows the last word:
it is the stem and decimal digits behind it, in eight bytes, or in as many as the stem and the
counter's own digits need. -/
theorem shared_codes_differ (stem : String) (first : UInt64) (threads : Nat) {steps : List Step}
    (ran : run? steps (start ⟨stem, first⟩ threads) = some (shared, written)) {count : Nat}
    (few : count ≤ 2 ^ 64) :
    (firstCodes count (written ++ shared.awaited)).Nodup ∧
      (firstCodes count (written ++ shared.awaited)).Perm
        ((CodeSequence.drawMany count ⟨stem, first⟩).1.take shared.taken) ∧
      (∀ one ∈ written ++ shared.awaited,
        CodeSequence.Numbered stem ((first.toNat + one.place) % 2 ^ 64) one.code) ∧
      (CodeSequence.drawMany count ⟨stem, first⟩).1.Nodup ∧
      ∀ place < count, ∃ code, (CodeSequence.drawMany count ⟨stem, first⟩).1[place]? = some code ∧
        CodeSequence.Numbered stem ((first.toNat + place) % 2 ^ 64) code := by
  have held := accounted_run ran
  have together := first_codes_perm held count
  have alone : (CodeSequence.drawMany count ⟨stem, first⟩).1.Nodup := by
    rw [CodeSequence.drawMany_codes]
    exact CodeSequence.drawnAt_nodup _ few
  refine ⟨?_, together, ?_, alone, ?_⟩
  · apply together.nodup_iff.2
    exact alone.sublist (List.take_sublist _ _)
  · intro one member
    rw [placed_of_accounted held member]
    exact CodeSequence.drawnAt_numbered ⟨stem, first⟩ one.place
  · intro place early
    refine ⟨_, ?_, CodeSequence.drawnAt_numbered ⟨stem, first⟩ place⟩
    rw [CodeSequence.drawMany_codes, List.getElem?_map, List.getElem?_range early]
    rfl

/-- Two threads where the counter starts again: one takes its last value and writes it late, and
the other draws zero in between and has taken one. -/
def startingAgain : List Step :=
  [.take 0, .take 1, .write 1, .take 1, .write 0]

theorem codes_differ_starting_again :
    ∃ shared written,
      run? startingAgain (start ⟨"é", 18446744073709551615⟩ 2) = some (shared, written) ∧
      written.map PlacedCode.code = [⟨"é000000"⟩, ⟨"é18446744073709551615"⟩] ∧
      shared.awaited.map PlacedCode.code = [⟨"é000001"⟩] ∧
      2 ^ 64 ≤ 2 ^ 64 ∧
      (firstCodes (2 ^ 64) (written ++ shared.awaited)).Nodup ∧
      (firstCodes (2 ^ 64) (written ++ shared.awaited)).Perm
        ((CodeSequence.drawMany (2 ^ 64) ⟨"é", 18446744073709551615⟩).1.take shared.taken) ∧
      ∀ one ∈ written ++ shared.awaited, CodeSequence.Numbered "é"
        (((18446744073709551615 : UInt64).toNat + one.place) % 2 ^ 64) one.code := by
  obtain ⟨shared, written, ran, codes, awaits⟩ : ∃ shared written,
      run? startingAgain (start ⟨"é", 18446744073709551615⟩ 2) = some (shared, written) ∧
      written.map PlacedCode.code = [⟨"é000000"⟩, ⟨"é18446744073709551615"⟩] ∧
      shared.awaited.map PlacedCode.code = [⟨"é000001"⟩] :=
    ⟨_, _, rfl, rfl, rfl⟩
  have differ := shared_codes_differ "é" 18446744073709551615 2 ran (Nat.le_refl (2 ^ 64))
  exact ⟨shared, written, ran, codes, awaits, Nat.le_refl _, differ.1, differ.2.1, differ.2.2.1⟩

end SharedSequence

end ShortLinks
