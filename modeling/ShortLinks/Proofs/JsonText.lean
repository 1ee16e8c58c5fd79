import ShortLinks.Proofs.JsonLayout

/-!
# Written JSON is read back

A record is written as an object in one of its layouts: without white space, with its members
in order, and with the shortest escapes. So what was written is read back, whatever characters
it holds. The text of a record has neither a newline nor white space at its ends.
-/

namespace ShortLinks.Json

set_option autoImplicit false

/-- The value is read back where a comma or a brace follows it. -/
def ReadsBack (value : Scalar) : Prop :=
  ∀ (c : Char) (rest : List Char), c = ',' ∨ c = '\x7d' →
    readScalar value.kind (writeScalar value ++ c :: rest) = .ok (value, c :: rest)

theorem spelled_reads_back {value : Scalar} (fits : value.Fits) : ReadsBack value := by
  intro c rest kind
  have ends : Ends (c :: rest) := by
    rcases kind with rfl | rfl
    · exact ⟨',', rest, rfl, .inr (.inl rfl)⟩
    · exact ⟨'\x7d', rest, rfl, .inr (.inr (.inr rfl))⟩
  exact read_scalar_spelled (spells_written_scalar value) fits ends

theorem text_reads_back (text : String) : ReadsBack (.text text) := spelled_reads_back trivial

theorem flag_reads_back (flag : Bool) : ReadsBack (.flag flag) := spelled_reads_back trivial

/-- Names differ, and each value is of the kind that its field asks for. -/
structure Readable (schema : Schema) (members : Members) : Prop where
  distinct : (members.map Prod.fst).Nodup
  back : ∀ member ∈ members, ReadsBack member.2
  known : ∀ member ∈ members, ∃ field : Field,
    schema.fields.find? (fun field => field.name == member.1) = some field ∧
      field.kind = member.2.kind

theorem Readable.sublist {schema : Schema} {members fewer : Members}
    (readable : Readable schema members) (sub : fewer.Sublist members) :
    Readable schema fewer where
  distinct := (sub.map Prod.fst).nodup readable.distinct
  back := fun member held => readable.back member (sub.subset held)
  known := fun member held => readable.known member (sub.subset held)

theorem Readable.asked {schema : Schema} {members : Members} (readable : Readable schema members)
    {member : String × Scalar} (held : member ∈ members) : Asked schema member where
  fits := (read_scalar_skips (readable.back member held ',' [] (.inl rfl))).1
  field := readable.known member held

/-- A member as the program writes it. -/
def Entry.ofMember (member : String × Scalar) : Entry where
  before := Space.empty
  name := member.1.toList.flatMap writtenChar
  named := spelled_body (spells_written_text member.1.toList)
  behind := Space.empty
  value := writeScalar member.2
  valued := spelled_valid (spells_written_scalar member.2)
  after := Space.empty

def ObjectText.compact (entries : List Entry) : ObjectText :=
  ⟨Space.empty, entries, Space.empty, Space.empty⟩

theorem compact_text (members : Members) :
    (ObjectText.compact (members.map Entry.ofMember)).text = encodeMembers members := by
  have one : ∀ member, (Entry.ofMember member).text = writeMember member := by
    intro member
    simp [Entry.text, Entry.opened, Entry.ofMember, Space.empty, writeMember, writeString]
  have parts : (members.map Entry.ofMember).map Entry.text = members.map writeMember := by
    rw [List.map_map]
    exact List.map_congr_left fun member _ => one member
  rw [ObjectText.text, encodeMembers, writeMembers, ObjectText.compact, parts]
  rfl

theorem compact_spelled (schema : Schema) (members : Members) :
    Spelled schema (members.map Entry.ofMember) members := by
  induction members with
  | nil => exact .nil
  | cons member members ih =>
    exact .member (spells_written_text member.1.toList) (spells_written_scalar member.2) ih

theorem decode_record_written {schema : Schema} {members : Members}
    (readable : Readable schema members) :
    decodeRecord schema (encodeMembers members) = complete members schema.fields := by
  rw [← compact_text]
  exact decode_object_spelled (compact_spelled schema members) readable.distinct
    fun _ held => readable.asked held

theorem newline_not_mem_writtenChar (c : Char) : '\n' ∉ writtenChar c := by
  unfold writtenChar
  split_ifs with quote backslash backspace feed newline carriage tab control
  · decide
  · decide
  · decide
  · decide
  · decide
  · decide
  · decide
  · have small : c.toNat < 0x20 := by simpa [isControl] using control
    have digits : ∀ value : Fin 16, '\n' ≠ Nat.digitChar value.val := by decide
    have high := digits ⟨c.toNat / 16, by omega⟩
    have low := digits ⟨c.toNat % 16, by omega⟩
    simp only [List.mem_cons, List.not_mem_nil, or_false, not_or]
    exact ⟨by decide, by decide, by decide, by decide, high, low⟩
  · simpa using fun same : '\n' = c => newline same.symm

theorem newline_not_mem_string (text : String) : '\n' ∉ writeString text := by
  simp [writeString, newline_not_mem_writtenChar]

theorem newline_not_mem_scalar (value : Scalar) : '\n' ∉ writeScalar value := by
  cases value with
  | text text => exact newline_not_mem_string text
  | flag flag => cases flag <;> decide
  | count count =>
    intro held
    have digit : '\n'.isDigit = true :=
      Nat.isDigit_of_mem_toDigits (by decide) (by decide) held
    simp at digit

theorem newline_not_mem_led {parts : List (List Char)} (alone : ∀ part ∈ parts, '\n' ∉ part)
    (isFirst : Bool) : '\n' ∉ led isFirst parts := by
  induction parts generalizing isFirst with
  | nil => simp [led]
  | cons part parts ih =>
    have others := ih (fun other held => alone other (List.mem_cons_of_mem part held)) false
    have first := alone part List.mem_cons_self
    cases isFirst <;> simp [led, comma, first, others]

theorem newline_not_mem_members (members : Members) : '\n' ∉ writeMembers members := by
  have parts : ∀ part ∈ members.map writeMember, '\n' ∉ part := by
    intro part held
    rcases List.mem_map.1 held with ⟨member, _, rfl⟩
    simp [writeMember, newline_not_mem_string, newline_not_mem_scalar]
  have inside := newline_not_mem_led parts true
  simp [writeMembers, joined_led, inside]

end ShortLinks.Json
