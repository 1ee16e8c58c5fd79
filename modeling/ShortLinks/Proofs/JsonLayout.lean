import ShortLinks.Proofs.JsonSpelling

/-!
# Records laid out as objects and lists

An object may hold its members in any order and others in between, with white space around every
token and with any spelling of names and texts. It is read as the members that the schema asks
for, in the order in which they stand. An object in which the name of a member is no text, or in
which a field stands twice or not at all, is refused whatever else it holds. A list is read as
the values of the fields in order.
-/

namespace ShortLinks.Json

set_option autoImplicit false

/-- White space between tokens. -/
abbrev Space := {text : List Char // Blank text}

def Space.empty : Space := ⟨[], by simp [Blank]⟩

/-- A member of an object as it is written, behind its comma. -/
structure Entry where
  before : Space
  name : List Char
  named : Body name
  behind : Space
  value : List Char
  valued : Valid .value value
  after : Space

def Entry.opened (entry : Entry) (rest : List Char) : List Char :=
  entry.name ++ '"' :: (entry.behind.val ++ ':' :: (entry.value ++ rest))

def Entry.text (entry : Entry) : List Char :=
  entry.before.val ++ '"' :: entry.opened entry.after.val

structure ObjectText where
  lead : Space
  entries : List Entry
  gap : Space
  trail : Space

def ObjectText.text (object : ObjectText) : String :=
  String.ofList (object.lead.val ++ '\x7b' ::
    (joined [','] (object.entries.map Entry.text) ++
      (object.gap.val ++ '\x7d' :: object.trail.val)))

/-- An item of a list as it is written, behind its comma. -/
structure Item where
  value : List Char
  valued : Valid .value value
  after : Space

def Item.text (item : Item) : List Char := item.value ++ item.after.val

structure ListText where
  lead : Space
  items : List Item
  gap : Space
  trail : Space

def ListText.text (list : ListText) : String :=
  String.ofList (list.lead.val ++ '[' ::
    (joined [','] (list.items.map Item.text) ++ (list.gap.val ++ ']' :: list.trail.val)))

def comma (isFirst : Bool) : List Char := if isFirst then [] else [',']

/-- Parts with a comma before each, except before the first of all. -/
def led (isFirst : Bool) : List (List Char) → List Char
  | [] => []
  | part :: parts => comma isFirst ++ (part ++ led false parts)

theorem joined_led (parts : List (List Char)) : joined [','] parts = led true parts := by
  have later : ∀ parts : List (List Char), parts ≠ [] →
      ',' :: joined [','] parts = led false parts := by
    intro parts
    induction parts with
    | nil => simp
    | cons part parts ih =>
      intro _
      cases parts with
      | nil => simp [joined, led, comma]
      | cons next parts =>
        have others := ih (by simp)
        rw [joined, led, ← others]
        · simp [comma]
        · simp
  cases parts with
  | nil => rfl
  | cons part parts =>
    cases parts with
    | nil => simp [joined, led, comma]
    | cons next parts =>
      rw [joined, led, ← later (next :: parts) (by simp)]
      · simp [comma]
      · simp

theorem length_le_led {parts : List (List Char)} (filled : ∀ part ∈ parts, part ≠ [])
    (isFirst : Bool) : parts.length ≤ (led isFirst parts).length := by
  induction parts generalizing isFirst with
  | nil => simp
  | cons part parts ih =>
    have others := ih (fun other held => filled other (List.mem_cons_of_mem part held)) false
    have one := List.length_pos_of_ne_nil (filled part List.mem_cons_self)
    simp only [led, List.length_append, List.length_cons]
    omega

theorem space_ends (space : Space) {rest : List Char} (ends : Ends rest) :
    Ends (space.val ++ rest) := by
  rcases space with ⟨text, blank⟩
  cases text with
  | nil => exact ends
  | cons c text => exact ⟨c, text ++ rest, rfl, .inl (blank c List.mem_cons_self)⟩

theorem led_ends (space gap : Space) (parts : List (List Char)) {c : Char}
    (closing : c = ']' ∨ c = '\x7d') (rest : List Char) :
    Ends (space.val ++ (led false parts ++ (gap.val ++ c :: rest))) := by
  apply space_ends
  cases parts with
  | nil => exact space_ends gap ⟨c, rest, rfl, .inr (.inr closing)⟩
  | cons part parts => exact ⟨',', _, rfl, .inr (.inl rfl)⟩

def Entry.label? (entry : Entry) : Option String :=
  match readString .plain (entry.name ++ ['"']) with
  | .ok read => some (String.ofList read.1)
  | .error _ => none

theorem label_iff (entry : Entry) (name : String) :
    entry.label? = some name ↔ SpellsText name.toList entry.name := by
  unfold Entry.label?
  constructor
  · intro labelled
    split at labelled
    · rename_i read named
      have spelled := ((read_string_iff entry.named [] read.1 read.2).1 named).1
      rw [← Option.some.inj labelled, String.toList_ofList]
      exact spelled
    · cases labelled
  · intro spelled
    rw [read_string_spelled spelled]
    simp

theorem next_member_entry (isFirst : Bool) (space before : Space) (rest : List Char) :
    nextMember isFirst (space.val ++ (comma isFirst ++ (before.val ++ '"' :: rest))) =
      .ok (.member rest) := by
  have quote : skipSpace (before.val ++ '"' :: rest) = '"' :: rest :=
    skip_space_blank before.property _
  cases isFirst with
  | true =>
    have begins : skipSpace (space.val ++ (comma true ++ (before.val ++ '"' :: rest))) =
        '"' :: rest := (skip_space_blank space.property _).trans quote
    rw [nextMember, begins]
    rfl
  | false =>
    have begins : skipSpace (space.val ++ (comma false ++ (before.val ++ '"' :: rest))) =
        ',' :: (before.val ++ '"' :: rest) := skip_space_blank space.property _
    simp only [nextMember, begins, quote]
    rfl

theorem next_member_closed (isFirst : Bool) (space gap : Space) (rest : List Char) :
    nextMember isFirst (space.val ++ (gap.val ++ '\x7d' :: rest)) = .ok (.closed rest) := by
  have begins : skipSpace (space.val ++ (gap.val ++ '\x7d' :: rest)) = '\x7d' :: rest :=
    (skip_space_blank space.property _).trans (skip_space_blank gap.property _)
  simp only [nextMember, begins, if_true]

theorem read_colon_spelled (space : Space) (rest : List Char) :
    readColon (space.val ++ ':' :: rest) = .ok rest := by
  have begins : skipSpace (space.val ++ ':' :: rest) = ':' :: rest :=
    skip_space_blank space.property _
  rw [readColon, begins]
  rfl

theorem read_member_named (schema : Schema) (known : Members) {entry : Entry} {name : String}
    (named : SpellsText name.toList entry.name) (rest : List Char) :
    readMember schema known (entry.opened rest) =
      match schema.fields.find? fun field => field.name == name with
      | some field =>
          if (known.lookup name).isSome then .error (.duplicateField name)
          else (readScalar field.kind (entry.value ++ rest)).map fun read =>
            (known ++ [(name, read.1)], read.2)
      | none => (skipValue (entry.value ++ rest)).map fun behind => (known, behind) := by
  simp only [readMember, Entry.opened, read_string_spelled named, ok_bind, String.ofList_toList]
  cases schema.fields.find? fun field => field.name == name with
  | none =>
    simp only [read_colon_spelled, ok_bind]
    cases skipValue (entry.value ++ rest) <;> rfl
  | some field =>
    simp only
    split
    · rfl
    · rw [read_colon_spelled]
      simp only [ok_bind]
      cases readScalar field.kind (entry.value ++ rest) <;> rfl

def Schema.asks (schema : Schema) (name : String) : Bool :=
  (schema.fields.find? fun field => field.name == name).isSome

/-- A member that was read ends where its value ends. Its name is a text: one that the schema
does not ask for, or one that is new. -/
theorem read_member_ok {schema : Schema} {known all : Members} {entry : Entry}
    {rest behind : List Char} (ends : Ends rest)
    (read : readMember schema known (entry.opened rest) = .ok (all, behind)) :
    behind = rest ∧ ∃ name, entry.label? = some name ∧
      (schema.asks name = false ∧ all = known ∨
        ∃ value, schema.asks name = true ∧ known.lookup name = none ∧
          all = known ++ [(name, value)]) := by
  have skipped := skip_value_valid entry.valued ends
  obtain ⟨letters, named⟩ : ∃ letters, SpellsText letters entry.name := by
    rcases bind_ok read with ⟨⟨letters, later⟩, named, _⟩
    exact ⟨letters, ((read_string_iff entry.named _ letters later).1 named).1⟩
  obtain ⟨name, rfl⟩ : ∃ name : String, letters = name.toList :=
    ⟨String.ofList letters, by rw [String.toList_ofList]⟩
  have label := (label_iff entry name).2 named
  rw [read_member_named schema known named] at read
  cases found : schema.fields.find? fun field => field.name == name with
  | none =>
    simp only [found, skipped] at read
    rcases Prod.mk.inj (Except.ok.inj read) with ⟨rfl, rfl⟩
    exact ⟨rfl, name, label, .inl ⟨by rw [Schema.asks, found]; rfl, rfl⟩⟩
  | some field =>
    simp only [found] at read
    split at read
    · cases read
    · rename_i new
      rcases map_ok read with ⟨⟨value, later⟩, scalar, same⟩
      rcases Prod.mk.inj same with ⟨rfl, rfl⟩
      have agreed := (read_scalar_skips scalar).2.symm.trans skipped
      refine ⟨Except.ok.inj agreed, name, label, .inr ⟨value, ?_, ?_, rfl⟩⟩
      · rw [Schema.asks, found]
        rfl
      · exact Option.not_isSome_iff_eq_none.1 new

/-- The entries spell the members in this order, with others in between whose names are texts
that the schema does not ask for. -/
inductive Spelled (schema : Schema) : List Entry → Members → Prop
  | nil : Spelled schema [] []
  | member {entry : Entry} {entries : List Entry} {name : String} {value : Scalar}
      {members : Members} (named : SpellsText name.toList entry.name)
      (valued : SpellsScalar value entry.value) (later : Spelled schema entries members) :
      Spelled schema (entry :: entries) ((name, value) :: members)
  | unknown {entry : Entry} {entries : List Entry} {name : String} {members : Members}
      (named : SpellsText name.toList entry.name) (unasked : schema.asks name = false)
      (later : Spelled schema entries members) : Spelled schema (entry :: entries) members

/-- The schema asks for the member, and its value is one that the program can hold. -/
structure Asked (schema : Schema) (member : String × Scalar) : Prop where
  fits : member.2.Fits
  field : ∃ field, schema.fields.find? (fun field => field.name == member.1) = some field ∧
    field.kind = member.2.kind

theorem read_members_entry {schema : Schema} {known members : Members} {entry : Entry}
    {rest : List Char} (read : readMember schema known (entry.opened rest) = .ok (members, rest))
    (fuel : Nat) (isFirst : Bool) (space : Space) :
    readMembers schema (fuel + 1) isFirst known
        (space.val ++ (comma isFirst ++ (entry.before.val ++ '"' :: entry.opened rest))) =
      readMembers schema fuel false members rest := by
  rw [readMembers, next_member_entry]
  simp only [read]

/-- The members of an object behind those that have been read, and all that follows them. -/
def remaining (isFirst : Bool) (entries : List Entry) (gap : Space) (trail : List Char) :
    List Char :=
  led isFirst (entries.map Entry.text) ++ (gap.val ++ '\x7d' :: trail)

theorem remaining_cons (isFirst : Bool) (entry : Entry) (entries : List Entry) (gap : Space)
    (trail : List Char) :
    remaining isFirst (entry :: entries) gap trail =
      comma isFirst ++ (entry.before.val ++
        '"' :: entry.opened (entry.after.val ++ remaining false entries gap trail)) := by
  simp [remaining, led, Entry.text, Entry.opened]

theorem remaining_ends (space : Space) (entries : List Entry) (gap : Space)
    (trail : List Char) : Ends (space.val ++ remaining false entries gap trail) :=
  led_ends space gap (entries.map Entry.text) (.inr rfl) trail

theorem read_members_closed (schema : Schema) (fuel : Nat) (isFirst : Bool) (known : Members)
    (space gap : Space) (trail : List Char) :
    readMembers schema (fuel + 1) isFirst known
      (space.val ++ remaining isFirst [] gap trail) = .ok (known, trail) := by
  rw [readMembers, remaining]
  simp only [List.map_nil, led, List.nil_append, next_member_closed]

theorem names_apart {front back : Members} {member other : String × Scalar}
    (distinct : ((front ++ member :: back).map Prod.fst).Nodup) (before : other ∈ front) :
    member.1 ≠ other.1 := by
  rw [List.map_append, List.map_cons] at distinct
  exact ((List.nodup_append.1 distinct).2.2 other.1 (List.mem_map_of_mem before) member.1
    List.mem_cons_self).symm

theorem read_members_spelled {schema : Schema} {entries : List Entry} {order : Members}
    (spelled : Spelled schema entries order) {known : Members}
    (distinct : ((known ++ order).map Prod.fst).Nodup)
    (asked : ∀ member ∈ order, Asked schema member) {fuel : Nat}
    (enough : entries.length < fuel) (isFirst : Bool) (space gap : Space) (trail : List Char) :
    readMembers schema fuel isFirst known (space.val ++ remaining isFirst entries gap trail) =
      .ok (known ++ order, trail) := by
  induction spelled generalizing known fuel isFirst space with
  | nil =>
    obtain ⟨fuel, rfl⟩ : ∃ less, fuel = less + 1 := ⟨fuel - 1, by simp at enough; omega⟩
    rw [read_members_closed, List.append_nil]
  | @member entry entries name value members named valued later ih =>
    obtain ⟨fuel, rfl⟩ : ∃ less, fuel = less + 1 := ⟨fuel - 1, by simp at enough; omega⟩
    have ends := remaining_ends entry.after entries gap trail
    rcases asked (name, value) List.mem_cons_self with ⟨fits, field, found, kind⟩
    have new : known.lookup name = none :=
      List.lookup_eq_none_iff.2 fun other held => by simpa using names_apart distinct held
    have same : known ++ (name, value) :: members = known ++ [(name, value)] ++ members := by
      simp
    have read : readMember schema known
        (entry.opened (entry.after.val ++ remaining false entries gap trail)) =
          .ok (known ++ [(name, value)], entry.after.val ++ remaining false entries gap trail) := by
      rw [read_member_named schema known named, found]
      simp only [new, Option.isSome_none, Bool.false_eq_true, if_false, kind]
      rw [read_scalar_spelled valued fits ends]
      rfl
    rw [remaining_cons, read_members_entry read, same]
    exact ih (same ▸ distinct) (fun other held => asked other (List.mem_cons_of_mem _ held))
      (by simpa using enough) false entry.after
  | @unknown entry entries name members named unasked later ih =>
    obtain ⟨fuel, rfl⟩ : ∃ less, fuel = less + 1 := ⟨fuel - 1, by simp at enough; omega⟩
    have ends := remaining_ends entry.after entries gap trail
    have unfound : schema.fields.find? (fun field => field.name == name) = none := by
      simpa [Schema.asks] using unasked
    have read : readMember schema known
        (entry.opened (entry.after.val ++ remaining false entries gap trail)) =
          .ok (known, entry.after.val ++ remaining false entries gap trail) := by
      rw [read_member_named schema known named, unfound]
      simp only [skip_value_valid entry.valued ends]
      rfl
    rw [remaining_cons, read_members_entry read]
    exact ih distinct asked (by simpa using enough) false entry.after

/-- The names that stand in an object and that the schema asks for. -/
def labels (schema : Schema) (entries : List Entry) : List String :=
  (entries.filterMap Entry.label?).filter schema.asks

theorem nodup_append_new {known : Members} {name : String} {value : Scalar}
    (distinct : (known.map Prod.fst).Nodup) (new : known.lookup name = none) :
    ((known ++ [(name, value)]).map Prod.fst).Nodup := by
  rw [List.map_append]
  apply List.nodup_append.2
  refine ⟨distinct, by simp, ?_⟩
  intro key held other last
  rcases List.mem_map.1 held with ⟨member, known, rfl⟩
  obtain rfl : other = name := by simpa using last
  have apart := List.lookup_eq_none_iff.1 new member known
  simpa using fun same : member.1 = other => by simp [same] at apart

/-- An object whose members have been read has texts for names, and none that the schema asks
for stands twice. -/
theorem read_members_ok {schema : Schema} {entries : List Entry} {fuel : Nat} {isFirst : Bool}
    {known all : Members} {space gap : Space} {trail behind : List Char}
    (read : readMembers schema fuel isFirst known
      (space.val ++ remaining isFirst entries gap trail) = .ok (all, behind)) :
    (∀ entry ∈ entries, entry.label?.isSome) ∧
      all.map Prod.fst = known.map Prod.fst ++ labels schema entries ∧
      ((known.map Prod.fst).Nodup → (all.map Prod.fst).Nodup) := by
  induction entries generalizing fuel isFirst known space with
  | nil =>
    cases fuel with
    | zero => cases read
    | succ fuel =>
      rw [read_members_closed] at read
      rcases Prod.mk.inj (Except.ok.inj read) with ⟨rfl, _⟩
      simp [labels]
  | cons entry entries ih =>
    cases fuel with
    | zero => cases read
    | succ fuel =>
      have ends := remaining_ends entry.after entries gap trail
      rw [remaining_cons, readMembers, next_member_entry] at read
      simp only at read
      cases one : readMember schema known
          (entry.opened (entry.after.val ++ remaining false entries gap trail)) with
      | error fault =>
        rw [one] at read
        cases read
      | ok found =>
        rcases found with ⟨members, later⟩
        rw [one] at read
        rcases read_member_ok ends one with ⟨rfl, name, label, outcome⟩
        rcases ih read with ⟨named, names, distinct⟩
        refine ⟨?_, ?_, ?_⟩
        · intro other held
          rcases List.mem_cons.1 held with rfl | held
          · rw [label]
            rfl
          · exact named other held
        · rcases outcome with ⟨unasked, rfl⟩ | ⟨value, asks, _, rfl⟩
          · rw [names]
            simp [labels, label, unasked]
          · rw [names]
            simp [labels, label, asks]
        · intro before
          apply distinct
          rcases outcome with ⟨_, rfl⟩ | ⟨value, _, new, rfl⟩
          · exact before
          · exact nodup_append_new before new

theorem read_record_blank (schema : Schema) (space : Space) (text : List Char) :
    readRecord schema (space.val ++ text) = readRecord schema text := by
  rw [readRecord, skip_space_blank space.property, readRecord]

theorem read_object {schema : Schema} {text behind : List Char} {known : Members}
    (read : readMembers schema (text.length + 1) true [] text = .ok (known, behind)) :
    readRecord schema ('\x7b' :: text) =
      (complete known schema.fields).map fun whole => (whole, behind) := by
  rw [readRecord, skip_space_cons (by decide)]
  simp only [read, Bind.bind, Except.bind]
  cases complete known schema.fields <;> rfl

theorem finish_blank {α : Type} (value : α) (trail : Space) :
    finish (value, trail.val) = .ok value := by
  have nothing : skipSpace trail.val = [] := List.dropWhile_eq_nil_iff.2 trail.property
  simp [finish, nothing]

theorem object_letters (object : ObjectText) :
    object.text.toList = object.lead.val ++ '\x7b' ::
      remaining true object.entries object.gap object.trail.val := by
  rw [ObjectText.text, String.toList_ofList, joined_led, remaining]

theorem entries_le_length (entries : List Entry) (gap : Space) (trail : List Char) :
    entries.length < (remaining true entries gap trail).length := by
  have filled : ∀ part ∈ entries.map Entry.text, part ≠ [] := by
    intro part held
    rcases List.mem_map.1 held with ⟨entry, _, rfl⟩
    simp [Entry.text]
  have bound := length_le_led filled true
  simp only [List.length_map] at bound
  simp only [remaining, List.length_append, List.length_cons]
  omega

theorem decode_object_spelled {schema : Schema} {object : ObjectText} {order : Members}
    (spelled : Spelled schema object.entries order) (distinct : (order.map Prod.fst).Nodup)
    (asked : ∀ member ∈ order, Asked schema member) :
    decodeRecord schema object.text = complete order schema.fields := by
  have bound := entries_le_length object.entries object.gap object.trail.val
  have apart : ((([] : Members) ++ order).map Prod.fst).Nodup := distinct
  have read : readMembers schema
      ((remaining true object.entries object.gap object.trail.val).length + 1) true []
      (Space.empty.val ++ remaining true object.entries object.gap object.trail.val) =
        .ok ([] ++ order, object.trail.val) :=
    read_members_spelled spelled apart asked (by omega) true Space.empty object.gap
      object.trail.val
  rw [decodeRecord, object_letters, read_record_blank, read_object read,
    List.nil_append]
  cases complete order schema.fields with
  | error fault => rfl
  | ok members => exact finish_blank members object.trail

theorem held_of_lookup {known : Members} {name : String} {value : Scalar}
    (present : known.lookup name = some value) : (name, value) ∈ known := by
  rcases List.lookup_eq_some_iff.1 present with ⟨front, back, rfl, _⟩
  simp

theorem complete_known {known members : Members} {fields : List Field}
    (completed : complete known fields = .ok members) {field : Field} (held : field ∈ fields)
    (needed : field.fallback = none) : field.name ∈ known.map Prod.fst := by
  induction fields generalizing members with
  | nil => cases held
  | cons first fields ih =>
    rw [complete] at completed
    split at completed
    · cases completed
    · rename_i value present
      rcases map_ok completed with ⟨later, others, _⟩
      rcases List.mem_cons.1 held with rfl | held
      · rw [needed, Option.or_none] at present
        exact List.mem_map_of_mem (held_of_lookup present)
      · exact ih others held

/-- An object that is read has texts for names. Every field that is needed stands in it, and no
field stands in it twice. -/
theorem decode_object_ok {schema : Schema} {object : ObjectText} {members : Members}
    (decoded : decodeRecord schema object.text = .ok members) :
    (∀ entry ∈ object.entries, entry.label?.isSome) ∧ (labels schema object.entries).Nodup ∧
      ∀ field ∈ schema.fields, field.fallback = none →
        field.name ∈ labels schema object.entries := by
  rw [decodeRecord, object_letters, read_record_blank] at decoded
  rcases bind_ok decoded with ⟨⟨all, behind⟩, read, _⟩
  rw [readRecord, skip_space_cons (by decide)] at read
  rcases bind_ok read with ⟨⟨known, later⟩, membersRead, read⟩
  rcases bind_ok read with ⟨whole, completed, _⟩
  have inner : readMembers schema
      ((remaining true object.entries object.gap object.trail.val).length + 1) true []
      (Space.empty.val ++ remaining true object.entries object.gap object.trail.val) =
        .ok (known, later) := membersRead
  rcases read_members_ok inner with ⟨named, names, distinct⟩
  rw [List.map_nil, List.nil_append] at names
  refine ⟨named, ?_, ?_⟩
  · rw [← names]
    exact distinct (by simp)
  · intro field held needed
    rw [← names]
    exact complete_known completed held needed

/-- Behind its opening brace, and behind one of its values, an object is laid out as entries. -/
def LaidOut : Part → List Char → Prop
  | .items .object, text => ∃ entries gap, text = remaining true entries gap []
  | .later .object, text =>
      ∃ (space : Space) (entries : List Entry) (gap : Space),
        text = space.val ++ remaining false entries gap []
  | _, _ => True

def Space.cons {c : Char} (space : isSpace c = true) (others : Space) : Space :=
  ⟨c :: others.val, by
    intro other held
    rcases List.mem_cons.1 held with rfl | held
    · exact space
    · exact others.property other held⟩

theorem laid_out_blank {part : Part} {c : Char} {text : List Char} (space : isSpace c = true)
    (laid : LaidOut part text) : LaidOut part (c :: text) := by
  match part with
  | .items .object =>
    rcases laid with ⟨entries, gap, rfl⟩
    cases entries with
    | nil => exact ⟨[], gap.cons space, rfl⟩
    | cons entry entries =>
      refine ⟨{ entry with before := entry.before.cons space } :: entries, gap, ?_⟩
      rw [remaining_cons, remaining_cons]
      rfl
  | .later .object =>
    rcases laid with ⟨others, entries, gap, rfl⟩
    exact ⟨others.cons space, entries, gap, rfl⟩
  | .value | .items .list | .later .list => trivial

theorem label_laid_out (isFirst : Bool) {label value later : List Char}
    (labelled : Label .object label) (one : Valid .value value)
    (laid : LaidOut (.later .object) later) :
    ∃ entries gap, comma isFirst ++ (label ++ (value ++ later)) =
      remaining isFirst entries gap [] := by
  rcases laid with ⟨space, entries, gap, rfl⟩
  rcases labelled with _ | ⟨blank, named, blankBehind⟩
  refine ⟨⟨⟨_, blank⟩, _, named, ⟨_, blankBehind⟩, value, one, space⟩ :: entries, gap, ?_⟩
  rw [remaining_cons]
  simp [Entry.opened]

theorem valid_laid_out {part : Part} {text : List Char} (spelled : Valid part text) :
    LaidOut part text := by
  induction spelled with
  | blank space _ ih => exact laid_out_blank space ih
  | none frame =>
    cases frame with
    | list => trivial
    | object => exact ⟨[], Space.empty, rfl⟩
  | done frame =>
    cases frame with
    | list => trivial
    | object => exact ⟨Space.empty, [], Space.empty, rfl⟩
  | @first frame label value later labelled one others _ ih =>
    cases frame with
    | list => trivial
    | object => exact label_laid_out true labelled one ih
  | @next frame label value later labelled one others _ ih =>
    cases frame with
    | list => trivial
    | object =>
      rcases label_laid_out false labelled one ih with ⟨entries, gap, same⟩
      exact ⟨Space.empty, entries, gap, same⟩
  | text | null | true | false | positive | negative | list | object => trivial

theorem remaining_trail (isFirst : Bool) (entries : List Entry) (gap : Space)
    (trail : List Char) :
    remaining isFirst entries gap [] ++ trail = remaining isFirst entries gap trail := by
  simp [remaining]

/-- Every object of the grammar is an object of entries. -/
theorem valid_object_layout {items : List Char} (spelled : Valid (.items .object) items)
    (lead trail : Space) :
    ∃ object : ObjectText,
      object.text.toList = lead.val ++ '\x7b' :: (items ++ trail.val) := by
  rcases valid_laid_out spelled with ⟨entries, gap, rfl⟩
  refine ⟨⟨lead, entries, gap, trail⟩, ?_⟩
  rw [object_letters, remaining_trail]

theorem read_scalar_trimmed (kind : Kind) (text : List Char) :
    readScalar kind (skipSpace text) = readScalar kind text := by
  rw [readScalar, skip_space_twice, readScalar]

theorem next_item_value (isFirst : Bool) (space : Space) (item : Item) (rest : List Char) :
    nextItem isFirst (space.val ++ (comma isFirst ++ (item.value ++ rest))) =
      .ok (.item (skipSpace (item.value ++ rest))) := by
  rcases value_begins item.valued rfl rest with ⟨c, later, begins, notClosing⟩
  cases isFirst with
  | true =>
    have first : skipSpace (space.val ++ (comma true ++ (item.value ++ rest))) = c :: later :=
      (skip_space_blank space.property _).trans begins
    simp only [nextItem, first, notClosing, begins, if_true, if_false]
  | false =>
    have first : skipSpace (space.val ++ (comma false ++ (item.value ++ rest))) =
        ',' :: (item.value ++ rest) := skip_space_blank space.property _
    simp [nextItem, first, begins, notClosing]

theorem read_items_spelled (schema : Schema) {items : List Item} {members : Members}
    (spelled : List.Forall₂ (fun item member => SpellsScalar member.2 item.value) items members)
    (fits : ∀ member ∈ members, member.2.Fits) (position : Nat) (space gap : Space)
    (trail : List Char) :
    ∃ after : Space,
      readItems schema (members.map fun member => required member.1 member.2.kind) position
          (space.val ++ (led (position == 0) (items.map Item.text) ++
            (gap.val ++ ']' :: trail))) =
        .ok (members, after.val ++ (gap.val ++ ']' :: trail)) := by
  induction spelled generalizing position space with
  | nil => exact ⟨space, rfl⟩
  | @cons item member items members valued _ ih =>
    have others := fun other held => fits other (List.mem_cons_of_mem member held)
    rcases ih others (position + 1) item.after with ⟨after, read⟩
    refine ⟨after, ?_⟩
    have ends := led_ends item.after gap (items.map Item.text) (.inl rfl) trail
    have scalar := read_scalar_spelled valued (fits member List.mem_cons_self) ends
    have split : led (position == 0) ((item :: items).map Item.text) ++
        (gap.val ++ ']' :: trail) = comma (position == 0) ++ (item.value ++ (item.after.val ++
          (led false (items.map Item.text) ++ (gap.val ++ ']' :: trail)))) := by
      simp [led, Item.text]
    rw [split, List.map_cons, readItems, next_item_value]
    simp only [required, read_scalar_trimmed, scalar]
    exact congrArg (Except.map _) read

theorem close_list_blank (space gap trail : Space) :
    closeList (space.val ++ (gap.val ++ ']' :: trail.val)) = .ok trail.val := by
  have begins : skipSpace (space.val ++ (gap.val ++ ']' :: trail.val)) = ']' :: trail.val :=
    (skip_space_blank space.property _).trans (skip_space_blank gap.property _)
  rw [closeList, begins]
  rfl

/-- However the values are laid out in a list, they are read as the members in order. -/
theorem decode_list_spelled {schema : Schema} {list : ListText} {members : Members}
    (fields : schema.fields = members.map fun member => required member.1 member.2.kind)
    (spelled : List.Forall₂ (fun item member => SpellsScalar member.2 item.value) list.items
      members)
    (fits : ∀ member ∈ members, member.2.Fits) :
    decodeRecord schema list.text = .ok members := by
  rcases read_items_spelled schema spelled fits 0 Space.empty list.gap list.trail.val with
    ⟨after, read⟩
  have letters : list.text.toList = list.lead.val ++ '[' ::
      (Space.empty.val ++ (led true (list.items.map Item.text) ++
        (list.gap.val ++ ']' :: list.trail.val))) := by
    rw [ListText.text, String.toList_ofList, joined_led]
    rfl
  have whole : readRecord schema list.text.toList = .ok (members, list.trail.val) := by
    rw [beq_self_eq_true] at read
    rw [letters, read_record_blank, readRecord, skip_space_cons (by decide)]
    simp only [fields]
    rw [read, ok_bind, close_list_blank, ok_bind]
    rfl
  rw [decodeRecord, whole]
  exact finish_blank members list.trail

end ShortLinks.Json
