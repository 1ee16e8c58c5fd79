import ShortLinks.Json.Records
import Mathlib.Data.List.TakeWhile

/-!
# A document that ended is not continued

What a reader took from the front of a text, and what it left, do not depend on what is put
behind the text. A number is the exception, since digits behind it would be part of it, but
no record ends in a number. So a text with a record in it followed by anything but white
space is refused for its trailing characters.
-/

namespace ShortLinks.Json

set_option autoImplicit false

theorem skip_space_append {text rest : List Char} {first : Char}
    (begins : skipSpace text = first :: rest) (extra : List Char) :
    skipSpace (text ++ extra) = first :: (rest ++ extra) := by
  unfold skipSpace at begins ⊢
  rw [List.dropWhile_append, begins]
  rfl

theorem map_ok {α β : Type} {change : α → β} {outcome : Except Fault α} {value : β}
    (mapped : outcome.map change = .ok value) :
    ∃ inner, outcome = .ok inner ∧ change inner = value := by
  cases outcome with
  | error fault => cases mapped
  | ok inner => exact ⟨inner, rfl, Except.ok.inj mapped⟩

theorem map_front_ok {α β : Type} {change : α → β} {outcome : Except Fault (α × List Char)}
    {value : β} {behind : List Char}
    (mapped : (outcome.map fun pair => (change pair.1, pair.2)) = .ok (value, behind)) :
    ∃ front, outcome = .ok (front, behind) ∧ change front = value := by
  rcases map_ok mapped with ⟨⟨front, later⟩, inner, same⟩
  rcases Prod.mk.inj same with ⟨changed, rfl⟩
  exact ⟨front, inner, changed⟩

theorem bind_ok {α β : Type} {outcome : Except Fault α} {next : α → Except Fault β} {value : β}
    (bound : outcome.bind next = .ok value) :
    ∃ inner, outcome = .ok inner ∧ next inner = .ok value := by
  cases outcome with
  | error fault => cases bound
  | ok inner => exact ⟨inner, rfl, bound⟩

theorem ok_bind {α β : Type} (value : α) (next : α → Except Fault β) :
    (Except.ok value >>= next) = next value := rfl

theorem read_string_append {within : Within} {text behind : List Char} {value : List Char}
    (read : readString within text = .ok (value, behind)) (extra : List Char) :
    readString within (text ++ extra) = .ok (value, behind ++ extra) := by
  fun_induction readString within text generalizing value behind with
  | case3 rest =>
    rcases Prod.mk.inj (Except.ok.inj read) with ⟨rfl, rfl⟩
    simp [readString]
  | case4 rest other ih => simpa [readString] using ih read
  | case6 c rest notQuote notBackslash visible ih =>
    rcases map_front_ok read with ⟨text, inner, rfl⟩
    simp [readString, notQuote, notBackslash, visible, ih inner, Except.map]
  | case7 rest ih => simpa [readString] using ih read
  | case9 c rest notUnicode meant short ih =>
    rcases map_front_ok read with ⟨text, inner, rfl⟩
    simp [readString, notUnicode, short, ih inner, Except.map]
  | case11 high digits value c rest digit hex unit few =>
    rename_i ih
    simpa [readString, hex, few] using ih read
  | case13 high digits value c rest digit hex unit full first surrogate =>
    rename_i ih
    simpa [readString, hex, full, unit, surrogate] using ih read
  | case14 high digits value c rest digit hex unit full meant character =>
    rename_i ih
    rcases map_front_ok read with ⟨text, inner, rfl⟩
    simp [readString, hex, full, unit, character, ih inner, Except.map]
  | case15 high rest ih => simpa [readString] using ih read
  | case17 high rest ih => simpa [readString] using ih read
  | _ => cases read

theorem skip_string_append {skipping : Skipping} {text behind : List Char}
    (skipped : skipString skipping text = .ok behind) (extra : List Char) :
    skipString skipping (text ++ extra) = .ok (behind ++ extra) := by
  fun_induction skipString skipping text generalizing behind with
  | case3 rest =>
    obtain rfl : rest = behind := Except.ok.inj skipped
    simp [skipString]
  | case4 rest other ih => simpa [skipString] using ih skipped
  | case6 c rest notQuote notBackslash visible ih =>
    simpa [skipString, notQuote, notBackslash, visible] using ih skipped
  | case7 rest ih => simpa [skipString] using ih skipped
  | case8 c rest notUnicode short ih =>
    simpa [skipString, notUnicode, short] using ih skipped
  | case11 digits c rest digit hex few ih => simpa [skipString, hex, few] using ih skipped
  | case12 digits c rest digit hex full ih => simpa [skipString, hex, full] using ih skipped
  | _ => cases skipped

theorem read_word_append {word text behind : List Char}
    (read : readWord word text = .ok behind) (extra : List Char) :
    readWord word (text ++ extra) = .ok (behind ++ extra) := by
  induction word generalizing text with
  | nil =>
    obtain rfl : text = behind := Except.ok.inj read
    rfl
  | cons letter word ih =>
    cases text with
    | nil => cases read
    | cons c text =>
      simp only [readWord, List.cons_append] at read ⊢
      split at read
      · rename_i same
        rw [if_pos same]
        exact ih read
      · cases read

theorem digits_append {text rest : List Char} {first : Char}
    (ended : text.dropWhile Char.isDigit = first :: rest) (extra : List Char) :
    (text ++ extra).takeWhile Char.isDigit = text.takeWhile Char.isDigit ∧
      (text ++ extra).dropWhile Char.isDigit = first :: (rest ++ extra) := by
  constructor
  · have whole := congrArg List.length
      (List.takeWhile_append_dropWhile (p := Char.isDigit) (l := text))
    rw [ended, List.length_append, List.length_cons] at whole
    rw [List.takeWhile_append, if_neg (by omega)]
  · rw [List.dropWhile_append, ended]
    rfl

/-- An exponent without its sign. -/
def behindSign (text : List Char) : List Char :=
  match text with
  | '+' :: rest | '-' :: rest => rest
  | _ => text

theorem behind_sign_append {text : List Char} (filled : text ≠ []) (extra : List Char) :
    behindSign (text ++ extra) = behindSign text ++ extra := by
  cases text with
  | nil => exact absurd rfl filled
  | cons c text =>
    by_cases plus : c = '+'
    · subst plus
      rfl
    · by_cases minus : c = '-'
      · subst minus
        rfl
      · simp [behindSign, plus, minus]

def behindDigits (text : List Char) : Except Fault (List Char) :=
  match text with
  | [] => .error .invalidNumber
  | c :: _ => if c.isDigit then .ok (text.dropWhile Char.isDigit) else .error .invalidNumber

theorem skip_exponent_spelled (text : List Char) :
    skipExponent text = behindDigits (behindSign text) := rfl

theorem skip_exponent_append {text rest : List Char} {first : Char}
    (skipped : skipExponent text = .ok (first :: rest)) (extra : List Char) :
    skipExponent (text ++ extra) = .ok (first :: (rest ++ extra)) := by
  have filled : text ≠ [] := by
    rintro rfl
    cases skipped
  rw [skip_exponent_spelled] at skipped ⊢
  rw [behind_sign_append filled]
  cases digits : behindSign text with
  | nil =>
    rw [digits] at skipped
    cases skipped
  | cons c later =>
    rw [digits] at skipped
    simp only [behindDigits, List.cons_append] at skipped ⊢
    split at skipped
    · rename_i digit
      have ended := (digits_append (Except.ok.inj skipped) extra).2
      rw [if_pos digit]
      exact congrArg Except.ok ended
    · cases skipped

def skipMark (text : List Char) : Except Fault (List Char) :=
  match text with
  | 'e' :: later | 'E' :: later => skipExponent later
  | later => .ok later

theorem skip_mark_append {mark first : Char} {last rest : List Char}
    (skipped : skipMark (mark :: last) = .ok (first :: rest)) (extra : List Char) :
    skipMark (mark :: (last ++ extra)) = .ok (first :: (rest ++ extra)) := by
  by_cases small : mark = 'e'
  · subst small
    exact skip_exponent_append skipped extra
  · by_cases large : mark = 'E'
    · subst large
      exact skip_exponent_append skipped extra
    · have kept : ∀ letters, skipMark (mark :: letters) = .ok (mark :: letters) := by
        intro letters
        simp [skipMark, small, large]
      rw [kept] at skipped ⊢
      rcases List.cons.inj (Except.ok.inj skipped) with ⟨rfl, rfl⟩
      rfl

def skipFraction (text : List Char) : Except Fault (List Char) :=
  match text with
  | '.' :: later =>
      if (later.takeWhile Char.isDigit).isEmpty then .error .invalidNumber
      else skipMark (later.dropWhile Char.isDigit)
  | later => skipMark later

theorem skip_fraction_append {mark first : Char} {last rest : List Char}
    (skipped : skipFraction (mark :: last) = .ok (first :: rest)) (extra : List Char) :
    skipFraction (mark :: (last ++ extra)) = .ok (first :: (rest ++ extra)) := by
  by_cases point : mark = '.'
  · subst point
    simp only [skipFraction] at skipped ⊢
    split at skipped
    · cases skipped
    · rename_i fraction
      cases behind : last.dropWhile Char.isDigit with
      | nil =>
        rw [behind] at skipped
        cases skipped
      | cons next later =>
        rcases digits_append behind extra with ⟨taken, dropped⟩
        rw [behind] at skipped
        rw [taken, dropped, if_neg fraction]
        exact skip_mark_append skipped extra
  · have other : ∀ letters, skipFraction (mark :: letters) = skipMark (mark :: letters) := by
      intro letters
      simp [skipFraction, point]
    rw [other] at skipped ⊢
    exact skip_mark_append skipped extra

theorem skip_number_spelled (c : Char) (text : List Char) :
    skipNumber (c :: text) =
      if !c.isDigit then .error .invalidNumber
      else if c = '0' && 1 < ((c :: text).takeWhile Char.isDigit).length then
        .error .invalidNumber
      else skipFraction ((c :: text).dropWhile Char.isDigit) := by
  unfold skipNumber
  simp only
  generalize (c :: text).dropWhile Char.isDigit = behind
  cases behind with
  | nil => rfl
  | cons mark later =>
    by_cases point : mark = '.'
    · subst point
      rfl
    · by_cases small : mark = 'e'
      · subst small
        rfl
      · by_cases large : mark = 'E'
        · subst large
          rfl
        · simp [skipFraction, skipMark, point, small, large]

theorem skip_number_append {text rest : List Char} {first : Char}
    (skipped : skipNumber text = .ok (first :: rest)) (extra : List Char) :
    skipNumber (text ++ extra) = .ok (first :: (rest ++ extra)) := by
  cases text with
  | nil => cases skipped
  | cons c text =>
    rw [skip_number_spelled] at skipped
    rw [List.cons_append, skip_number_spelled]
    split at skipped
    · cases skipped
    · rename_i digit
      rw [if_neg digit]
      split at skipped
      · cases skipped
      · rename_i leading
        cases ended : (c :: text).dropWhile Char.isDigit with
        | nil =>
          rw [ended] at skipped
          cases skipped
        | cons mark later =>
          rcases digits_append ended extra with ⟨taken, dropped⟩
          rw [ended] at skipped
          rw [List.cons_append] at taken dropped
          rw [taken, dropped, if_neg leading]
          exact skip_fraction_append skipped extra

theorem skip_scalar_append {initial first : Char} {text rest : List Char}
    (skipped : skipScalar initial text = .ok (first :: rest)) (extra : List Char) :
    skipScalar initial (text ++ extra) = .ok (first :: (rest ++ extra)) := by
  unfold skipScalar at skipped ⊢
  split_ifs at skipped ⊢ with quote null true false minus digit
  · exact skip_string_append skipped extra
  · exact read_word_append skipped extra
  · exact read_word_append skipped extra
  · exact read_word_append skipped extra
  · exact skip_number_append skipped extra
  · exact skip_number_append skipped extra

theorem read_colon_append {text behind : List Char} (read : readColon text = .ok behind)
    (extra : List Char) : readColon (text ++ extra) = .ok (behind ++ extra) := by
  unfold readColon at read ⊢
  split at read
  · cases read
  · rename_i rest begins
    obtain rfl : rest = behind := Except.ok.inj read
    rw [skip_space_append begins]
    rfl
  · cases read

theorem skip_name_append {text behind : List Char} (skipped : skipName text = .ok behind)
    (extra : List Char) : skipName (text ++ extra) = .ok (behind ++ extra) := by
  unfold skipName at skipped ⊢
  cases begins : skipSpace text with
  | nil =>
    rw [begins] at skipped
    cases skipped
  | cons c rest =>
    rw [begins] at skipped
    rw [skip_space_append begins]
    simp only at skipped ⊢
    split at skipped
    · cases skipped
    · rename_i quote
      rw [if_neg quote]
      cases named : skipString .plain rest with
      | error fault =>
        rw [named] at skipped
        cases skipped
      | ok later =>
        rw [named] at skipped
        rw [skip_string_append named]
        exact read_colon_append skipped extra

theorem skip_to_value_append {frame : Frame} {text behind : List Char}
    (skipped : skipToValue frame text = .ok behind) (extra : List Char) :
    skipToValue frame (text ++ extra) = .ok (behind ++ extra) := by
  cases frame with
  | list =>
    obtain rfl : text = behind := Except.ok.inj skipped
    rfl
  | object => exact skip_name_append skipped extra

theorem skip_from_nil {fuel : Nat} {position : Position} {frames : List Frame}
    {behind : List Char} (skipped : skipFrom fuel position frames [] = .ok behind) :
    behind = [] := by
  cases fuel with
  | zero => cases skipped
  | succ fuel =>
    cases position with
    | value => cases skipped
    | firstItem =>
      cases frames with
      | nil => exact (Except.ok.inj skipped).symm
      | cons frame frames => cases skipped
    | nextItem =>
      cases frames with
      | nil => exact (Except.ok.inj skipped).symm
      | cons frame frames => cases skipped

theorem skip_from_scalar {c : Char} {text later : List Char}
    (begins : skipSpace text = c :: later) (notList : c ≠ '[') (notObject : c ≠ '\x7b')
    (fuel : Nat) (frames : List Frame) :
    skipFrom (fuel + 1) .value frames text =
      (skipScalar c later).bind (skipFrom fuel .nextItem frames) := by
  cases scalar : skipScalar c later <;>
    simp [skipFrom, begins, scalar, Except.bind]

theorem skip_from_done {position : Position} (behindValue : position ≠ .value) (fuel : Nat)
    (text : List Char) : skipFrom (fuel + 1) position [] text = .ok text := by
  cases position with
  | value => exact absurd rfl behindValue
  | firstItem => rfl
  | nextItem => rfl

theorem skip_from_frame {position : Position} (behindValue : position ≠ .value)
    {c : Char} {text later : List Char} (begins : skipSpace text = c :: later) (fuel : Nat)
    (frame : Frame) (frames : List Frame) :
    skipFrom (fuel + 1) position (frame :: frames) text =
      if c = frame.closing then skipFrom fuel .nextItem frames later
      else if position = .firstItem then
        (skipToValue frame (c :: later)).bind (skipFrom fuel .value (frame :: frames))
      else if c ≠ ',' then .error frame.commaFault
      else (skipToValue frame later).bind (skipFrom fuel .value (frame :: frames)) := by
  cases position with
  | value => exact absurd rfl behindValue
  | firstItem =>
    cases reached : skipToValue frame (c :: later) <;>
      simp [skipFrom, begins, reached, Except.bind]
  | nextItem =>
    cases reached : skipToValue frame later <;> simp [skipFrom, begins, reached, Except.bind]

theorem skip_from_append {fuel more : Nat} (enough : fuel ≤ more) {position : Position}
    {frames : List Frame} {text rest : List Char} {first : Char}
    (skipped : skipFrom fuel position frames text = .ok (first :: rest)) (extra : List Char) :
    skipFrom more position frames (text ++ extra) = .ok (first :: (rest ++ extra)) := by
  -- A value nested in another is skipped with one unit of fuel less, on both texts alike.
  induction fuel generalizing more position frames text with
  | zero => cases skipped
  | succ fuel ih =>
    obtain ⟨more, rfl⟩ : ∃ less, more = less + 1 := ⟨more - 1, by omega⟩
    have less : fuel ≤ more := by omega
    by_cases value : position = .value
    · subst value
      cases begins : skipSpace text with
      | nil =>
        rw [skipFrom, begins] at skipped
        cases skipped
      | cons c later =>
        have longer := skip_space_append begins extra
        by_cases list : c = '['
        · subst list
          rw [skipFrom, begins] at skipped
          rw [skipFrom, longer]
          exact ih less skipped
        · by_cases object : c = '\x7b'
          · subst object
            rw [skipFrom, begins] at skipped
            rw [skipFrom, longer]
            exact ih less skipped
          · rw [skip_from_scalar begins list object] at skipped
            rw [skip_from_scalar longer list object]
            rcases bind_ok skipped with ⟨behind, scalar, skipped⟩
            cases behind with
            | nil => cases skip_from_nil skipped
            | cons next behind =>
              rw [skip_scalar_append scalar]
              exact ih less skipped
    · cases frames with
      | nil =>
        rw [skip_from_done value] at skipped ⊢
        rw [Except.ok.inj skipped, List.cons_append]
      | cons frame frames =>
        cases begins : skipSpace text with
        | nil =>
          cases position <;> simp [skipFrom, begins] at skipped value
        | cons c later =>
          rw [skip_from_frame value begins] at skipped
          rw [skip_from_frame value (skip_space_append begins extra)]
          have item : ∀ {letters : List Char},
              (skipToValue frame letters).bind (skipFrom fuel .value (frame :: frames)) =
                  .ok (first :: rest) →
                (skipToValue frame (letters ++ extra)).bind
                  (skipFrom more .value (frame :: frames)) = .ok (first :: (rest ++ extra)) := by
            intro letters skipped
            rcases bind_ok skipped with ⟨behind, reached, skipped⟩
            rw [skip_to_value_append reached]
            exact ih less skipped
          split_ifs at skipped ⊢ with closing isFirst comma
          · exact ih less skipped
          · exact item skipped
          · exact item skipped

theorem skip_value_append {text rest : List Char} {first : Char}
    (skipped : skipValue text = .ok (first :: rest)) (extra : List Char) :
    skipValue (text ++ extra) = .ok (first :: (rest ++ extra)) := by
  refine skip_from_append ?_ skipped extra
  rw [List.length_append]
  omega

/-- The schema asks for no numbers. -/
def Countless (schema : Schema) : Prop := ∀ field ∈ schema.fields, field.kind ≠ .count

theorem read_scalar_append {kind : Kind} (countless : kind ≠ .count) {text behind : List Char}
    {value : Scalar} (read : readScalar kind text = .ok (value, behind)) (extra : List Char) :
    readScalar kind (text ++ extra) = .ok (value, behind ++ extra) := by
  unfold readScalar at read ⊢
  cases begins : skipSpace text with
  | nil =>
    rw [begins] at read
    cases read
  | cons first rest =>
    rw [begins] at read
    rw [skip_space_append begins]
    cases kind with
    | count => exact absurd rfl countless
    | text =>
      simp only [readScalarFrom] at read ⊢
      split at read
      · rename_i quote
        rcases map_ok read with ⟨⟨letters, later⟩, inner, same⟩
        rcases Prod.mk.inj same with ⟨rfl, rfl⟩
        rw [if_pos quote, read_string_append inner]
        rfl
      · cases read
    | flag =>
      simp only [readScalarFrom] at read ⊢
      split_ifs at read ⊢ with true false
      · rcases map_ok read with ⟨later, inner, same⟩
        rcases Prod.mk.inj same with ⟨rfl, rfl⟩
        rw [read_word_append inner]
        rfl
      · rcases map_ok read with ⟨later, inner, same⟩
        rcases Prod.mk.inj same with ⟨rfl, rfl⟩
        rw [read_word_append inner]
        rfl

theorem read_member_append {schema : Schema} (countless : Countless schema) {known all : Members}
    {text rest : List Char} {first : Char}
    (read : readMember schema known text = .ok (all, first :: rest)) (extra : List Char) :
    readMember schema known (text ++ extra) = .ok (all, first :: (rest ++ extra)) := by
  unfold readMember at read ⊢
  rcases bind_ok read with ⟨⟨letters, behindName⟩, named, read⟩
  rw [read_string_append named, ok_bind]
  simp only at read ⊢
  cases found : schema.fields.find? fun field => field.name == String.ofList letters with
  | none =>
    simp only [found] at read ⊢
    rcases bind_ok read with ⟨behindColon, colon, read⟩
    rcases bind_ok read with ⟨behind, skipped, read⟩
    rcases Prod.mk.inj (Except.ok.inj read) with ⟨rfl, rfl⟩
    rw [read_colon_append colon, ok_bind, skip_value_append skipped, ok_bind]
    rfl
  | some field =>
    have kind := countless field (List.mem_of_find?_eq_some found)
    simp only [found] at read ⊢
    split at read
    · cases read
    · rename_i new
      rw [if_neg new]
      rcases bind_ok read with ⟨behindColon, colon, read⟩
      rcases bind_ok read with ⟨⟨value, behind⟩, scalar, read⟩
      rcases Prod.mk.inj (Except.ok.inj read) with ⟨rfl, rfl⟩
      rw [read_colon_append colon, ok_bind, read_scalar_append kind scalar, ok_bind]
      rfl

def MemberMark.followedBy (extra : List Char) : MemberMark → MemberMark
  | member rest => .member (rest ++ extra)
  | closed rest => .closed (rest ++ extra)

theorem next_member_append {isFirst : Bool} {text : List Char} {mark : MemberMark}
    (next : nextMember isFirst text = .ok mark) (extra : List Char) :
    nextMember isFirst (text ++ extra) = .ok (mark.followedBy extra) := by
  unfold nextMember at next ⊢
  cases begins : skipSpace text with
  | nil =>
    rw [begins] at next
    cases next
  | cons c rest =>
    rw [begins] at next
    rw [skip_space_append begins]
    simp only at next ⊢
    split_ifs at next ⊢ with closing first quote other
    · obtain rfl := Except.ok.inj next
      rfl
    · obtain rfl := Except.ok.inj next
      rfl
    · split at next
      · cases next
      · rename_i behind opening
        obtain rfl := Except.ok.inj next
        rw [skip_space_append opening]
        rfl
      · cases next
      · cases next

theorem read_members_nil (schema : Schema) (fuel : Nat) (isFirst : Bool) (known : Members) :
    readMembers schema fuel isFirst known [] = .error .endInObject := by
  cases fuel <;> rfl

theorem read_members_append {schema : Schema} (countless : Countless schema) {fuel more : Nat}
    (enough : fuel ≤ more) {isFirst : Bool} {known all : Members} {text behind : List Char}
    (read : readMembers schema fuel isFirst known text = .ok (all, behind))
    (extra : List Char) :
    readMembers schema more isFirst known (text ++ extra) = .ok (all, behind ++ extra) := by
  induction fuel generalizing more isFirst known text with
  | zero => cases read
  | succ fuel ih =>
    obtain ⟨more, rfl⟩ : ∃ less, more = less + 1 := ⟨more - 1, by omega⟩
    have less : fuel ≤ more := by omega
    unfold readMembers at read ⊢
    cases next : nextMember isFirst text with
    | error fault =>
      rw [next] at read
      cases read
    | ok mark =>
      rw [next] at read
      rw [next_member_append next]
      cases mark with
      | closed rest =>
        rcases Prod.mk.inj (Except.ok.inj read) with ⟨rfl, rfl⟩
        rfl
      | member rest =>
        simp only [MemberMark.followedBy] at read ⊢
        cases one : readMember schema known rest with
        | error fault =>
          rw [one] at read
          cases read
        | ok found =>
          rcases found with ⟨members, later⟩
          rw [one] at read
          cases later with
          | nil =>
            cases (read_members_nil schema fuel false members).symm.trans read
          | cons first later =>
            rw [read_member_append countless one]
            exact ih less read

def ItemMark.followedBy (extra : List Char) : ItemMark → ItemMark
  | item rest => .item (rest ++ extra)
  | closed => .closed

theorem next_item_append {isFirst : Bool} {text : List Char} {mark : ItemMark}
    (next : nextItem isFirst text = .ok mark) (extra : List Char) :
    nextItem isFirst (text ++ extra) = .ok (mark.followedBy extra) := by
  unfold nextItem at next ⊢
  cases begins : skipSpace text with
  | nil =>
    rw [begins] at next
    cases next
  | cons c rest =>
    rw [begins] at next
    rw [skip_space_append begins]
    simp only at next ⊢
    split_ifs at next ⊢ with closing first other
    · obtain rfl := Except.ok.inj next
      rfl
    · obtain rfl := Except.ok.inj next
      rfl
    · cases opening : skipSpace rest with
      | nil =>
        rw [opening] at next
        cases next
      | cons item behind =>
        rw [opening] at next
        rw [skip_space_append opening]
        by_cases bracket : item = ']'
        · subst bracket
          cases next
        · simp [bracket] at next ⊢
          rw [← next]
          rfl

theorem read_items_append {schema : Schema} {fields : List Field}
    (countless : ∀ field ∈ fields, field.kind ≠ .count) {position : Nat} {all : Members}
    {text behind : List Char}
    (read : readItems schema fields position text = .ok (all, behind)) (extra : List Char) :
    readItems schema fields position (text ++ extra) = .ok (all, behind ++ extra) := by
  induction fields generalizing position text all with
  | nil =>
    rcases Prod.mk.inj (Except.ok.inj read) with ⟨rfl, rfl⟩
    rfl
  | cons field fields ih =>
    have later := fun other member => countless other (List.mem_cons_of_mem field member)
    unfold readItems at read ⊢
    cases next : nextItem (position == 0) text with
    | error fault =>
      rw [next] at read
      cases read
    | ok mark =>
      rw [next] at read
      rw [next_item_append next]
      cases mark with
      | item rest =>
        simp only [ItemMark.followedBy] at read ⊢
        cases scalar : readScalar field.kind rest with
        | error fault =>
          rw [scalar] at read
          cases read
        | ok found =>
          rcases found with ⟨value, behindValue⟩
          rw [scalar] at read
          rw [read_scalar_append (countless field List.mem_cons_self) scalar]
          simp only at read ⊢
          rcases map_front_ok read with ⟨members, inner, rfl⟩
          rw [ih later inner]
          rfl
      | closed =>
        simp only [ItemMark.followedBy] at read ⊢
        cases fallback : field.fallback with
        | none =>
          rw [fallback] at read
          cases read
        | some value =>
          rw [fallback] at read
          simp only at read ⊢
          rcases map_front_ok read with ⟨members, inner, rfl⟩
          rw [ih later inner]
          rfl

theorem close_list_append {text behind : List Char} (closed : closeList text = .ok behind)
    (extra : List Char) : closeList (text ++ extra) = .ok (behind ++ extra) := by
  unfold closeList at closed ⊢
  split at closed
  · cases closed
  · rename_i rest bracket
    obtain rfl := Except.ok.inj closed
    rw [skip_space_append bracket]
    rfl
  · split at closed <;> cases closed
  · cases closed

/-- A record that was read stays the same record, whatever text is put behind it. -/
theorem read_record_append {schema : Schema} (countless : Countless schema) {members : Members}
    {text behind : List Char} (read : readRecord schema text = .ok (members, behind))
    (extra : List Char) : readRecord schema (text ++ extra) = .ok (members, behind ++ extra) := by
  unfold readRecord at read ⊢
  split at read
  · cases read
  · rename_i rest opening
    rcases bind_ok read with ⟨⟨items, later⟩, itemsRead, read⟩
    rcases bind_ok read with ⟨last, closed, read⟩
    rcases Prod.mk.inj (Except.ok.inj read) with ⟨rfl, rfl⟩
    rw [skip_space_append opening]
    simp only
    rw [read_items_append countless itemsRead, ok_bind, close_list_append closed, ok_bind]
    rfl
  · rename_i rest opening
    rcases bind_ok read with ⟨⟨known, later⟩, membersRead, read⟩
    rcases bind_ok read with ⟨all, completed, read⟩
    rcases Prod.mk.inj (Except.ok.inj read) with ⟨rfl, rfl⟩
    have enough : rest.length + 1 ≤ (rest ++ extra).length + 1 := by
      rw [List.length_append]
      omega
    rw [skip_space_append opening]
    simp only
    rw [read_members_append countless enough membersRead, ok_bind, completed, ok_bind]
    rfl
  · cases read

/-- A document that is read completely is refused as soon as anything but white space is put
behind it. -/
theorem decode_record_append {schema : Schema} (countless : Countless schema)
    {text : List Char} {members : Members}
    (decoded : decodeRecord schema (String.ofList text) = .ok members) {extra : List Char}
    (more : skipSpace extra ≠ []) :
    decodeRecord schema (String.ofList (text ++ extra)) = .error .trailingText := by
  unfold decodeRecord at decoded ⊢
  rw [String.toList_ofList] at decoded ⊢
  rcases bind_ok decoded with ⟨⟨all, behind⟩, read, finished⟩
  have trailing : skipSpace (behind ++ extra) ≠ [] := by
    intro blank
    apply more
    unfold skipSpace at blank ⊢
    rw [List.dropWhile_eq_nil_iff] at blank ⊢
    intro c held
    exact blank c (List.mem_append_right behind held)
  rw [read_record_append countless read]
  simp [Except.bind, finish, trailing]

end ShortLinks.Json
