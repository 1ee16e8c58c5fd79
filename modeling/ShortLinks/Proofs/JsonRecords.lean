import ShortLinks.Proofs.JsonText

/-!
# The JSON of a record loses nothing

A record is read back from its own text, and from every other text that lays out its members as
an object or its values as a list. What is read fits what can be written, so a text that was
read once may be replaced by the text of what was read. An object is refused if a field is
missing or stands twice, or if a name in it is no text.
-/

namespace ShortLinks.Json

set_option autoImplicit false

/-- Every value is one that the program can hold. -/
def Fit (members : Members) : Prop := ∀ member ∈ members, member.2.Fits

theorem lookup_held {known : Members} {member : String × Scalar}
    (distinct : (known.map Prod.fst).Nodup) (held : member ∈ known) :
    known.lookup member.1 = some member.2 := by
  rcases List.append_of_mem held with ⟨front, back, rfl⟩
  apply List.lookup_eq_some_iff.2
  refine ⟨front, back, rfl, ?_⟩
  intro other before
  simpa using names_apart distinct before

def Field.ofMember (member : String × Scalar) : Field := required member.1 member.2.kind

theorem find_of_member {members : Members} {member : String × Scalar}
    (distinct : (members.map Prod.fst).Nodup) (held : member ∈ members) :
    (members.map Field.ofMember).find? (fun field => field.name == member.1) =
      some (Field.ofMember member) := by
  induction members with
  | nil => cases held
  | cons first members ih =>
    rcases List.nodup_cons.1 distinct with ⟨new, others⟩
    rcases List.mem_cons.1 held with rfl | later
    · simp [Field.ofMember, required]
    · have apart : first.1 ≠ member.1 := fun same => new (same ▸ List.mem_map_of_mem later)
      have skipped : ((Field.ofMember first).name == member.1) = false := by
        simpa [Field.ofMember, required] using apart
      rw [List.map_cons, List.find?_cons, skipped]
      exact ih others later

theorem complete_present {known members : Members}
    (present : ∀ member ∈ members, known.lookup member.1 = some member.2) :
    complete known (members.map Field.ofMember) = .ok members := by
  induction members with
  | nil => rfl
  | cons member members ih =>
    have others := ih fun other held => present other (List.mem_cons_of_mem member held)
    have first := present member List.mem_cons_self
    rw [List.map_cons, complete]
    simp [Field.ofMember, required, first, others, Except.map]

theorem read_member_fit {schema : Schema} {known all : Members} {text behind : List Char}
    (read : readMember schema known text = .ok (all, behind)) (fit : Fit known) : Fit all := by
  unfold readMember at read
  rcases bind_ok read with ⟨⟨letters, behindName⟩, named, read⟩
  simp only at read
  cases found : schema.fields.find? fun field => field.name == String.ofList letters with
  | none =>
    simp only [found] at read
    rcases bind_ok read with ⟨behindColon, colon, read⟩
    rcases bind_ok read with ⟨last, skipped, read⟩
    rcases Prod.mk.inj (Except.ok.inj read) with ⟨rfl, rfl⟩
    exact fit
  | some field =>
    simp only [found] at read
    split at read
    · cases read
    · rcases bind_ok read with ⟨behindColon, colon, read⟩
      rcases bind_ok read with ⟨⟨value, last⟩, scalar, read⟩
      rcases Prod.mk.inj (Except.ok.inj read) with ⟨rfl, rfl⟩
      intro member held
      rcases List.mem_append.1 held with held | held
      · exact fit member held
      · obtain rfl := List.mem_singleton.1 held
        exact (read_scalar_skips scalar).1

theorem read_members_fit {schema : Schema} {fuel : Nat} {isFirst : Bool} {known all : Members}
    {text behind : List Char}
    (read : readMembers schema fuel isFirst known text = .ok (all, behind)) (fit : Fit known) :
    Fit all := by
  induction fuel generalizing isFirst known text with
  | zero => cases read
  | succ fuel ih =>
    unfold readMembers at read
    split at read
    · cases read
    · rcases Prod.mk.inj (Except.ok.inj read) with ⟨rfl, rfl⟩
      exact fit
    · split at read
      · cases read
      · rename_i members last one
        exact ih read (read_member_fit one fit)

theorem complete_fit {known all : Members} {fields : List Field}
    (needed : ∀ field ∈ fields, field.fallback = none) (fit : Fit known)
    (completed : complete known fields = .ok all) : Fit all := by
  induction fields generalizing all with
  | nil =>
    obtain rfl := Except.ok.inj completed
    exact fun member held => by cases held
  | cons field fields ih =>
    rw [complete, needed field List.mem_cons_self, Option.or_none] at completed
    split at completed
    · cases completed
    · rename_i value present
      rcases map_ok completed with ⟨later, others, rfl⟩
      have rest := ih (fun other held => needed other (List.mem_cons_of_mem field held)) others
      intro member held
      rcases List.mem_cons.1 held with rfl | held
      · exact fit (field.name, value) (held_of_lookup present)
      · exact rest member held

theorem read_items_fit {schema : Schema} {fields : List Field}
    (needed : ∀ field ∈ fields, field.fallback = none) {position : Nat} {all : Members}
    {text behind : List Char}
    (read : readItems schema fields position text = .ok (all, behind)) : Fit all := by
  induction fields generalizing position all text with
  | nil =>
    rcases Prod.mk.inj (Except.ok.inj read) with ⟨rfl, rfl⟩
    exact fun member held => by cases held
  | cons field fields ih =>
    have others := fun other held => needed other (List.mem_cons_of_mem field held)
    unfold readItems at read
    rw [needed field List.mem_cons_self] at read
    split at read
    · cases read
    · split at read
      · cases read
      · rename_i value last scalar
        rcases map_front_ok read with ⟨later, inner, rfl⟩
        intro member held
        rcases List.mem_cons.1 held with rfl | held
        · exact (read_scalar_skips scalar).1
        · exact ih others inner member held
    · cases read

theorem decode_record_fit {schema : Schema}
    (needed : ∀ field ∈ schema.fields, field.fallback = none) {text : String} {all : Members}
    (decoded : decodeRecord schema text = .ok all) : Fit all := by
  rcases bind_ok decoded with ⟨⟨members, behind⟩, read, finished⟩
  have same : members = all := by
    unfold finish at finished
    split at finished
    · exact Except.ok.inj finished
    · cases finished
  subst same
  unfold readRecord at read
  split at read
  · cases read
  · rcases bind_ok read with ⟨⟨items, later⟩, itemsRead, read⟩
    rcases bind_ok read with ⟨last, closed, read⟩
    rcases Prod.mk.inj (Except.ok.inj read) with ⟨rfl, rfl⟩
    exact read_items_fit needed itemsRead
  · rcases bind_ok read with ⟨⟨known, later⟩, membersRead, read⟩
    rcases bind_ok read with ⟨whole, completed, read⟩
    rcases Prod.mk.inj (Except.ok.inj read) with ⟨rfl, rfl⟩
    have fit := read_members_fit membersRead fun member held => by cases held
    exact complete_fit needed fit completed
  · cases read

/-- The members of a record fill the fields of its schema in order, and make up the record. -/
structure Recorded {α : Type} (schema : Schema) (members : α → Members)
    (ofMembers : Members → Except Fault α) : Prop where
  fields : ∀ value, schema.fields = (members value).map Field.ofMember
  distinct : (schema.fields.map Field.name).Nodup
  needed : ∀ field ∈ schema.fields, field.fallback = none
  built : ∀ value, ofMembers (members value) = .ok value
  kept : ∀ {all : Members} {value : α}, ofMembers all = .ok value →
    ∀ member ∈ members value, member ∈ all

/-- The texts of a record stand for it, and texts that stand for none are refused. -/
structure Lossless {α : Type} (schema : Schema) (members : α → Members) (toJson : α → String)
    (fromJson : String → Except Fault α) (fits : α → Prop) : Prop where
  back : ∀ value, fits value → fromJson (toJson value) = .ok value
  fixed : ∀ text value, fromJson text = .ok value →
    fits value ∧ (fromJson (toJson value)).map toJson = .ok (toJson value)
  object : ∀ (value : α) (order : Members) (object : ObjectText), fits value →
    order.Perm (members value) → Spelled schema object.entries order →
      fromJson object.text = .ok value
  list : ∀ (value : α) (list : ListText), fits value →
    List.Forall₂ (fun item member => SpellsScalar member.2 item.value) list.items
      (members value) → fromJson list.text = .ok value
  missing : ∀ (object : ObjectText), ∀ field ∈ schema.fields,
    (∀ entry ∈ object.entries, ¬ SpellsText field.name.toList entry.name) →
      ∃ fault, fromJson object.text = .error fault
  doubled : ∀ (object : ObjectText) (first second : Entry), ∀ field ∈ schema.fields,
    [first, second].Sublist object.entries → SpellsText field.name.toList first.name →
      SpellsText field.name.toList second.name → ∃ fault, fromJson object.text = .error fault
  unreadable : ∀ (object : ObjectText), ∀ entry ∈ object.entries,
    (∀ name, ¬ SpellsText name entry.name) → ∃ fault, fromJson object.text = .error fault

section

variable {α : Type} {schema : Schema} {members : α → Members}
  {ofMembers : Members → Except Fault α}

theorem Recorded.names (recorded : Recorded schema members ofMembers) (value : α) :
    (members value).map Prod.fst = schema.fields.map Field.name := by
  rw [recorded.fields value, List.map_map]
  rfl

theorem Recorded.apart (recorded : Recorded schema members ofMembers) (value : α) :
    ((members value).map Prod.fst).Nodup := by
  rw [recorded.names value]
  exact recorded.distinct

theorem Recorded.asked (recorded : Recorded schema members ofMembers) {value : α}
    (fit : Fit (members value)) {member : String × Scalar} (held : member ∈ members value) :
    Asked schema member := by
  refine ⟨fit member held, Field.ofMember member, ?_, rfl⟩
  rw [recorded.fields value]
  exact find_of_member (recorded.apart value) held

theorem Recorded.decode_object (recorded : Recorded schema members ofMembers) {value : α}
    (fit : Fit (members value)) {order : Members} (order_perm : order.Perm (members value))
    {object : ObjectText} (spelled : Spelled schema object.entries order) :
    decodeRecord schema object.text = .ok (members value) := by
  have distinct : (order.map Prod.fst).Nodup :=
    (order_perm.map Prod.fst).nodup_iff.2 (recorded.apart value)
  have asked : ∀ member ∈ order, Asked schema member := fun member held =>
    recorded.asked fit (order_perm.subset held)
  rw [decode_object_spelled spelled distinct asked, recorded.fields value]
  apply complete_present
  intro member held
  exact lookup_held distinct (order_perm.symm.subset held)

theorem Recorded.decoded_once (recorded : Recorded schema members ofMembers)
    {object : ObjectText} {value : α}
    (decoded : (decodeRecord schema object.text).bind ofMembers = .ok value) :
    (∀ entry ∈ object.entries, entry.label?.isSome) ∧ (labels schema object.entries).Nodup ∧
      ∀ field ∈ schema.fields, field.name ∈ labels schema object.entries := by
  rcases bind_ok decoded with ⟨all, read, _⟩
  rcases decode_object_ok read with ⟨named, distinct, held⟩
  exact ⟨named, distinct, fun field asked => held field asked (recorded.needed field asked)⟩

theorem asks_field {field : Field} (held : field ∈ schema.fields) :
    schema.asks field.name = true := by
  rw [Schema.asks, List.find?_isSome]
  exact ⟨field, held, by simp⟩

theorem doubled_label {entries : List Entry} {first second : Entry} {field : Field}
    (held : field ∈ schema.fields) (two : [first, second].Sublist entries)
    (one : SpellsText field.name.toList first.name)
    (other : SpellsText field.name.toList second.name) :
    ¬ (labels schema entries).Nodup := by
  intro distinct
  have pair : labels schema [first, second] = [field.name, field.name] := by
    simp [labels, (label_iff first field.name).2 one, (label_iff second field.name).2 other,
      asks_field held]
  have inside : (labels schema [first, second]).Sublist (labels schema entries) :=
    (two.filterMap Entry.label?).filter schema.asks
  have twice := inside.nodup distinct
  rw [pair] at twice
  simp at twice

theorem fault_of_unread {outcome : Except Fault α} (unread : ∀ value, outcome ≠ .ok value) :
    ∃ fault, outcome = .error fault := by
  cases outcome with
  | error fault => exact ⟨fault, rfl⟩
  | ok value => exact absurd rfl (unread value)

/-- A record with such members loses nothing in JSON. -/
theorem Recorded.lossless (recorded : Recorded schema members ofMembers) {fits : α → Prop}
    (fit : ∀ value, fits value ↔ Fit (members value)) :
    Lossless schema members (fun value => encodeMembers (members value))
      (fun text => (decodeRecord schema text).bind ofMembers) fits := by
  have back : ∀ value, fits value →
      (decodeRecord schema (encodeMembers (members value))).bind ofMembers = .ok value := by
    intro value fitting
    have spelled := compact_spelled schema (members value)
    rw [← compact_text, recorded.decode_object ((fit value).1 fitting) (List.Perm.refl _) spelled]
    exact recorded.built value
  refine ⟨back, ?_, ?_, ?_, ?_, ?_, ?_⟩
  · intro text value decoded
    rcases bind_ok decoded with ⟨all, read, made⟩
    have fitting : fits value := by
      apply (fit value).2
      intro member held
      exact decode_record_fit recorded.needed read member (recorded.kept made member held)
    refine ⟨fitting, ?_⟩
    rw [back value fitting]
    rfl
  · intro value order object fitting perm spelled
    show (decodeRecord schema object.text).bind ofMembers = .ok value
    rw [recorded.decode_object ((fit value).1 fitting) perm spelled]
    exact recorded.built value
  · intro value list fitting spelled
    show (decodeRecord schema list.text).bind ofMembers = .ok value
    rw [decode_list_spelled (recorded.fields value) spelled ((fit value).1 fitting)]
    exact recorded.built value
  · intro object field held absent
    apply fault_of_unread
    intro value decoded
    have named := (recorded.decoded_once decoded).2.2 field held
    rcases List.mem_filterMap.1 (List.mem_filter.1 named).1 with ⟨entry, inside, label⟩
    exact absent entry inside ((label_iff entry field.name).1 label)
  · intro object first second field held two one other
    apply fault_of_unread
    intro value decoded
    exact doubled_label held two one other (recorded.decoded_once decoded).2.1
  · intro object entry inside unnamed
    apply fault_of_unread
    intro value decoded
    have labelled := (recorded.decoded_once decoded).1 entry inside
    rcases Option.isSome_iff_exists.1 labelled with ⟨name, label⟩
    exact unnamed name.toList ((label_iff entry name).1 label)

end

theorem text_member_held {all : Members} {name value : String}
    (read : textMember all name = .ok value) : (name, .text value) ∈ all := by
  unfold textMember at read
  split at read
  · rename_i found present
    obtain rfl := Except.ok.inj read
    exact held_of_lookup present
  · cases read

theorem flag_member_held {all : Members} {name : String} {value : Bool}
    (read : flagMember all name = .ok value) : (name, .flag value) ∈ all := by
  unfold flagMember at read
  split at read
  · rename_i found present
    obtain rfl := Except.ok.inj read
    exact held_of_lookup present
  · cases read

theorem count_member_held {all : Members} {name : String} {value : Nat}
    (read : countMember all name = .ok value) : (name, .count value) ∈ all := by
  unfold countMember at read
  split at read
  · rename_i found present
    obtain rfl := Except.ok.inj read
    exact held_of_lookup present
  · cases read

theorem link_record_recorded :
    Recorded LinkRecord.schema LinkRecord.members LinkRecord.ofMembers where
  fields := fun _ => rfl
  distinct := by decide
  needed := by decide
  built := fun _ => rfl
  kept := by
    intro all record made
    rcases bind_ok made with ⟨code, first, made⟩
    rcases bind_ok made with ⟨url, second, made⟩
    rcases bind_ok made with ⟨owner, third, made⟩
    rcases bind_ok made with ⟨deleted, fourth, made⟩
    obtain rfl := Except.ok.inj made
    simp [LinkRecord.members, text_member_held first, text_member_held second,
      text_member_held third, flag_member_held fourth]

theorem store_stats_recorded :
    Recorded StoreStats.schema StoreStats.members StoreStats.ofMembers where
  fields := fun _ => rfl
  distinct := by decide
  needed := by decide
  built := fun _ => rfl
  kept := by
    intro all stats made
    rcases bind_ok made with ⟨urls, first, made⟩
    rcases bind_ok made with ⟨users, second, made⟩
    obtain rfl := Except.ok.inj made
    simp [StoreStats.members, count_member_held first, count_member_held second]

/-- Two texts make up each of the records that requests carry. -/
theorem recorded_of_texts {α : Type} {title one other : String} {first second : α → String}
    {make : String → String → α} (apart : one ≠ other)
    (made : ∀ value, make (first value) (second value) = value)
    (firstOf : ∀ left right, first (make left right) = left)
    (secondOf : ∀ left right, second (make left right) = right) :
    Recorded ⟨title, [required one .text, required other .text]⟩
      (fun value => [(one, .text (first value)), (other, .text (second value))])
      (fun all => do
        let left ← textMember all one
        let right ← textMember all other
        return make left right) where
  fields := fun _ => rfl
  distinct := by simpa [required] using apart
  needed := by simp [required]
  built := by
    intro value
    have notOne : (other == one) = false := by simpa using apart.symm
    simp [textMember, List.lookup_cons, notOne, Bind.bind, Except.bind, Pure.pure, Except.pure,
      made]
  kept := by
    intro all value read
    rcases bind_ok read with ⟨left, leftRead, read⟩
    rcases bind_ok read with ⟨right, rightRead, read⟩
    obtain rfl := Except.ok.inj read
    simp [firstOf, secondOf, text_member_held leftRead, text_member_held rightRead]

theorem batch_item_recorded : Recorded BatchItem.schema BatchItem.members BatchItem.ofMembers :=
  recorded_of_texts (by decide) (fun _ => rfl) (fun _ _ => rfl) fun _ _ => rfl

theorem batch_link_recorded : Recorded BatchLink.schema BatchLink.members BatchLink.ofMembers :=
  recorded_of_texts (by decide) (fun _ => rfl) (fun _ _ => rfl) fun _ _ => rfl

theorem owned_link_recorded : Recorded OwnedLink.schema OwnedLink.members OwnedLink.ofMembers :=
  recorded_of_texts (by decide) (fun _ => rfl) (fun _ _ => rfl) fun _ _ => rfl

-- The members in another order, an escaped name, a pair of surrogates, and a nested member.
example :
    OwnedLink.fromJson
      ("\x7b \"original_url\": \"\\ud83d\\ude00\", \"x\":[1,\x7b\"y\":null\x7d] ," ++
        "\"short\\u005furl\":\"s\"\x7d") =
          .ok ⟨"s", String.singleton (Char.ofNat 0x1f600)⟩ := rfl

theorem code_spelled (code : ShortCode) {body : List Char}
    (spelled : SpellsText code.text.toList body) (lead trail : Space) :
    ShortCode.fromJson (String.ofList (lead.val ++ '"' :: (body ++ '"' :: trail.val))) =
      .ok code := by
  have read := read_string_spelled spelled trail.val
  have begins : skipSpace (lead.val ++ '"' :: (body ++ '"' :: trail.val)) =
      '"' :: (body ++ '"' :: trail.val) := skip_space_blank lead.property _
  have finished := finish_blank code.text trail
  simp [ShortCode.fromJson, decodeText, readScalar, begins, readScalarFrom, read, Except.map,
    Except.bind, finished]

/-- The JSON of codes and records loses nothing and does not depend on how it is spelled. What is
said of objects is said of every object of the grammar. -/
theorem json_is_lossless :
    (∀ code : ShortCode, ShortCode.fromJson code.toJson = .ok code) ∧
      (∀ text code, ShortCode.fromJson text = .ok code →
        (ShortCode.fromJson code.toJson).map ShortCode.toJson = .ok code.toJson) ∧
      Lossless LinkRecord.schema LinkRecord.members LinkRecord.toJson LinkRecord.fromJson
        (fun _ => True) ∧
      Lossless StoreStats.schema StoreStats.members StoreStats.toJson StoreStats.fromJson
        (fun stats => stats.urls ≤ wordLimit ∧ stats.users ≤ wordLimit) ∧
      Lossless BatchItem.schema BatchItem.members BatchItem.toJson BatchItem.fromJson
        (fun _ => True) ∧
      Lossless BatchLink.schema BatchLink.members BatchLink.toJson BatchLink.fromJson
        (fun _ => True) ∧
      Lossless OwnedLink.schema OwnedLink.members OwnedLink.toJson OwnedLink.fromJson
        (fun _ => True) ∧
      ∀ (items : List Char) (lead trail : Space), Valid (.items .object) items →
        ∃ object : ObjectText,
          object.text.toList = lead.val ++ '\x7b' :: (items ++ trail.val) := by
  have back : ∀ code : ShortCode, ShortCode.fromJson code.toJson = .ok code := by
    intro code
    have read := code_spelled code (spells_written_text code.text.toList) Space.empty Space.empty
    simpa [ShortCode.toJson, writeString, Space.empty] using read
  refine ⟨back, ?_, ?_, ?_, ?_, ?_, ?_, ?_⟩
  · intro text code _
    rw [back code]
    rfl
  · exact link_record_recorded.lossless fun record => by
      simp [Fit, LinkRecord.members, Scalar.Fits]
  · exact store_stats_recorded.lossless fun stats => by
      simp [Fit, StoreStats.members, Scalar.Fits]
  · exact batch_item_recorded.lossless fun item => by
      simp [Fit, BatchItem.members, Scalar.Fits]
  · exact batch_link_recorded.lossless fun item => by
      simp [Fit, BatchLink.members, Scalar.Fits]
  · exact owned_link_recorded.lossless fun item => by
      simp [Fit, OwnedLink.members, Scalar.Fits]
  · intro items lead trail spelled
    exact valid_object_layout spelled lead trail

/-- A member that no record asks for, named by half of a surrogate pair. -/
def unpaired : Entry where
  before := Space.empty
  name := ['\\', 'u', 'd', 'c', '0', '0']
  named := .cons (.unit rfl) .nil
  behind := Space.empty
  value := ['0']
  valued := spelled_valid (.count 0)
  after := Space.empty

/-- Such a member is not passed over: the record is refused for its name, whatever it is. -/
theorem unpaired_name_refused :
    (∀ name, ¬ SpellsText name unpaired.name) ∧
      OwnedLink.fromJson
        (ObjectText.compact ((OwnedLink.members ⟨"s", "u"⟩).map Entry.ofMember)).text =
          .ok ⟨"s", "u"⟩ ∧
      (ObjectText.compact (unpaired :: (OwnedLink.members ⟨"s", "u"⟩).map Entry.ofMember)).text =
        "\x7b\"\\udc00\":0,\"short_url\":\"s\",\"original_url\":\"u\"\x7d" ∧
      OwnedLink.fromJson
        (ObjectText.compact (unpaired :: (OwnedLink.members ⟨"s", "u"⟩).map Entry.ofMember)).text =
          .error .loneSurrogate := by
  refine ⟨?_, rfl, rfl, rfl⟩
  intro name spelled
  have read := read_string_spelled spelled []
  cases read

end ShortLinks.Json
