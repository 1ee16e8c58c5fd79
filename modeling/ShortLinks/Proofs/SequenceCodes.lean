import ShortLinks.Code.Sequence
import Mathlib.Algebra.Group.Nat.Defs
import Mathlib.Data.List.Basic
import Mathlib.Data.List.Nodup
import Mathlib.Data.Nat.Log

/-!
# Codes of a sequence

Padding puts zeros in front of the digits of a counter and so leaves their value. Codes of one
stem are therefore told apart by their counters, also where some counters fill the padding and
others have outgrown it. The counter is a word: it comes back to a value after going through all
of them and not before, so as many codes as there are words differ.
-/

namespace ShortLinks

set_option autoImplicit false

namespace CodeSequence

theorem value_paddedDigits (width number : Nat) :
    Nat.ofDigitChars 10 (paddedDigits width number) 0 = number := by
  rw [paddedDigits, Nat.ofDigitChars_append, Nat.ofDigitChars_replicate_zero, Nat.mul_zero,
    Nat.ofDigitChars_ten_toDigits]

theorem paddedDigits_injective (width : Nat) : Function.Injective (paddedDigits width) := by
  intro first second same
  rw [← value_paddedDigits width first, same, value_paddedDigits]

theorem codeAt_injective (sequence : CodeSequence) : Function.Injective sequence.codeAt := by
  intro first second same
  have texts := String.ofList_injective (ShortCode.mk.inj same)
  have digits := paddedDigits_injective _ (List.append_cancel_left texts)
  exact UInt64.toNat_inj.1 digits

theorem isDigit_paddedDigits {width number : Nat} {digit : Char}
    (member : digit ∈ paddedDigits width number) : digit.isDigit = true := by
  rw [paddedDigits, List.mem_append] at member
  rcases member with padding | own
  · rw [List.eq_of_mem_replicate padding]
    rfl
  · exact Nat.isDigit_of_mem_toDigits (by decide) (by decide) own

/-- How many decimal digits a number has. -/
def digitCount (number : Nat) : Nat := Nat.log 10 number + 1

theorem length_toDigits (number : Nat) : (Nat.toDigits 10 number).length = digitCount number := by
  have fits {width : Nat} (positive : 0 < width) :
      (Nat.toDigits 10 number).length ≤ width ↔ number < 10 ^ width :=
    Nat.length_toDigits_le_iff (by decide) positive
  apply Nat.le_antisymm
  · apply (fits (Nat.succ_pos _)).2
    exact Nat.lt_pow_succ_log_self (by decide) number
  · have positive : 0 < (Nat.toDigits 10 number).length := Nat.length_toDigits_pos
    exact Nat.log_lt_of_lt_pow' positive.ne' ((fits positive).1 (Nat.le_refl _))

theorem length_paddedDigits (width number : Nat) :
    (paddedDigits width number).length = max width (digitCount number) := by
  rw [paddedDigits, List.length_append, List.length_replicate, length_toDigits]
  omega

theorem utf8ByteSize_digits {digits : List Char} (all : ∀ digit ∈ digits, digit.isDigit = true) :
    (String.ofList digits).utf8ByteSize = digits.length := by
  induction digits with
  | nil => rfl
  | cons digit digits induction =>
    have small : digit.utf8Size = 1 := by
      have range := Char.isDigit_iff_toNat.1 (all digit List.mem_cons_self)
      apply Char.utf8Size_eq_one_iff.2
      exact UInt32.le_iff_toNat_le.2 (Nat.le_trans range.2 (by decide))
    have behind := induction fun other member => all other (List.mem_cons_of_mem _ member)
    rw [← List.singleton_append, String.ofList_append, ← String.singleton_eq_ofList,
      String.utf8ByteSize_append, String.utf8ByteSize_singleton, small, behind,
      List.length_append, List.length_singleton]

/-- What the code of a number is, said without the padding: the stem, and behind it decimal digits
that tell the number; eight bytes, or as many as the stem and the number alone need. -/
structure Numbered (stem : String) (number : Nat) (code : ShortCode) : Prop where
  told : ∃ digits : List Char, code.text = stem ++ String.ofList digits ∧
    (∀ digit ∈ digits, digit.isDigit = true) ∧ Nat.ofDigitChars 10 digits 0 = number
  size : code.text.utf8ByteSize = max 8 (stem.utf8ByteSize + digitCount number)

theorem codeAt_text (sequence : CodeSequence) (counter : UInt64) :
    (sequence.codeAt counter).text =
      sequence.stem ++ String.ofList (paddedDigits sequence.width counter.toNat) := by
  rw [codeAt, String.ofList_append, String.ofList_toList]

theorem codeAt_numbered (sequence : CodeSequence) (counter : UInt64) :
    Numbered sequence.stem counter.toNat (sequence.codeAt counter) := by
  have digits : ∀ digit ∈ paddedDigits sequence.width counter.toNat, digit.isDigit = true :=
    fun _ member => isDigit_paddedDigits member
  constructor
  · exact ⟨_, sequence.codeAt_text counter, digits, value_paddedDigits _ _⟩
  · rw [codeAt_text, String.utf8ByteSize_append, utf8ByteSize_digits digits, length_paddedDigits,
      width, keyLength]
    omega

example : (CodeSequence.mk "sn" 0).codeAt 999999 = ⟨"sn999999"⟩ ∧
    (CodeSequence.mk "sn" 0).codeAt 1000000 = ⟨"sn1000000"⟩ := by decide

/-- The counter of the draw that comes after so many others. -/
def counterAt (sequence : CodeSequence) (place : Nat) : UInt64 :=
  sequence.next + .ofNat place

theorem counterAt_succ (sequence : CodeSequence) (place : Nat) :
    sequence.counterAt (place + 1) = sequence.counterAt place + 1 := by
  rw [counterAt, UInt64.ofNat_add, ← UInt64.add_assoc]
  rfl

theorem counterAt_behind (sequence : CodeSequence) (place : Nat) :
    sequence.draw.2.counterAt place = sequence.counterAt (place + 1) := by
  rw [counterAt, counterAt, UInt64.ofNat_add, UInt64.add_comm (.ofNat place), ← UInt64.add_assoc]
  rfl

theorem counterAt_toNat (sequence : CodeSequence) (place : Nat) :
    (sequence.counterAt place).toNat = (sequence.next.toNat + place) % 2 ^ 64 := by
  rw [counterAt, UInt64.toNat_add, UInt64.toNat_ofNat', Nat.add_mod_mod]

theorem counterAt_eq_iff (sequence : CodeSequence) (first second : Nat) :
    sequence.counterAt first = sequence.counterAt second ↔ first % 2 ^ 64 = second % 2 ^ 64 := by
  rw [counterAt, counterAt, UInt64.add_right_inj, ← UInt64.toNat_inj, UInt64.toNat_ofNat',
    UInt64.toNat_ofNat']

/-- The code of the draw that comes after so many others. -/
def drawnAt (sequence : CodeSequence) (place : Nat) : ShortCode :=
  sequence.codeAt (sequence.counterAt place)

theorem drawnAt_numbered (sequence : CodeSequence) (place : Nat) :
    Numbered sequence.stem ((sequence.next.toNat + place) % 2 ^ 64) (sequence.drawnAt place) := by
  rw [← counterAt_toNat]
  exact sequence.codeAt_numbered (sequence.counterAt place)

theorem drawMany_codes (count : Nat) (sequence : CodeSequence) :
    (drawMany count sequence).1 = (List.range count).map sequence.drawnAt := by
  induction count generalizing sequence with
  | zero => rfl
  | succ count induction =>
    have front : sequence.drawnAt 0 = sequence.draw.1 := by
      rw [drawnAt, counterAt]
      simp [draw]
    have behind : ∀ place, sequence.draw.2.drawnAt place = sequence.drawnAt (place + 1) := by
      intro place
      rw [drawnAt, counterAt_behind]
      rfl
    rw [List.range_succ_eq_map, List.map_cons, List.map_map, front]
    simp only [drawMany, induction]
    congr 1
    exact List.map_congr_left fun place _ => behind place

theorem drawnAt_nodup (sequence : CodeSequence) {count : Nat} (few : count ≤ 2 ^ 64) :
    ((List.range count).map sequence.drawnAt).Nodup := by
  apply List.Nodup.map_on _ List.nodup_range
  intro first early second late same
  have words := (sequence.counterAt_eq_iff first second).1 (sequence.codeAt_injective same)
  rw [List.mem_range] at early late
  rwa [Nat.mod_eq_of_lt (by omega), Nat.mod_eq_of_lt (by omega)] at words

end CodeSequence

end ShortLinks
