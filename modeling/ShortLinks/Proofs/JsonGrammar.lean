import ShortLinks.Proofs.JsonPrefix
import Mathlib.Data.List.DropRight

/-!
# JSON as it may be spelled

The values that a JSON text may hold, with white space in front of them: strings with any
escapes, numbers of any form and size, lists and objects of any depth. An escape by four
hexadecimal digits may be half of a surrogate pair, as the grammar looks only at the digits.
Whatever stands there is passed over exactly, and what follows it is left alone.
-/

namespace ShortLinks.Json

set_option autoImplicit false

def hexWord? (a b c d : Char) : Option Nat :=
  (Text.hexDigit? a).bind fun first => (Text.hexDigit? b).bind fun second =>
    (Text.hexDigit? c).bind fun third => (Text.hexDigit? d).map fun fourth =>
      ((first * 16 + second) * 16 + third) * 16 + fourth

/-- One character or escape of a string. -/
inductive Letter : List Char → Prop
  | plain {c : Char} (notQuote : c ≠ '"') (notBackslash : c ≠ '\\')
      (visible : isControl c = false) : Letter [c]
  | short {letter meant : Char} (escape : shortEscape? letter = some meant) :
      Letter ['\\', letter]
  | unit {a b c d : Char} {value : Nat} (digits : hexWord? a b c d = some value) :
      Letter ['\\', 'u', a, b, c, d]

inductive Body : List Char → Prop
  | nil : Body []
  | cons {letter body : List Char} (first : Letter letter) (later : Body body) :
      Body (letter ++ body)

theorem hex_word_digits {a b c d : Char} {value : Nat} (digits : hexWord? a b c d = some value) :
    ∃ first second third fourth, Text.hexDigit? a = some first ∧
      Text.hexDigit? b = some second ∧ Text.hexDigit? c = some third ∧
      Text.hexDigit? d = some fourth ∧
      ((first * 16 + second) * 16 + third) * 16 + fourth = value := by
  rcases Option.bind_eq_some_iff.1 digits with ⟨first, one, digits⟩
  rcases Option.bind_eq_some_iff.1 digits with ⟨second, two, digits⟩
  rcases Option.bind_eq_some_iff.1 digits with ⟨third, three, digits⟩
  rcases Option.map_eq_some_iff.1 digits with ⟨fourth, four, same⟩
  exact ⟨first, second, third, fourth, one, two, three, four, same⟩

theorem skip_string_letter {letter : List Char} (spelled : Letter letter) (rest : List Char) :
    skipString .plain (letter ++ rest) = skipString .plain rest := by
  cases spelled with
  | plain notQuote notBackslash visible => simp [skipString, notQuote, notBackslash, visible]
  | @short letter meant escape =>
    have notUnicode : letter ≠ 'u' := by
      rintro rfl
      simp [shortEscape?] at escape
    simp [skipString, notUnicode, escape]
  | unit digits =>
    rcases hex_word_digits digits with ⟨first, second, third, fourth, one, two, three, four, _⟩
    simp [skipString, one, two, three, four]

theorem skip_string_body {body : List Char} (spelled : Body body) (rest : List Char) :
    skipString .plain (body ++ '"' :: rest) = .ok rest := by
  induction spelled with
  | nil => simp [skipString]
  | cons first later ih => rw [List.append_assoc, skip_string_letter first, ih]

def Digits (text : List Char) : Prop := text ≠ [] ∧ ∀ c ∈ text, c.isDigit = true

/-- The digits before the point. They begin with a zero only if they are just that. -/
def Whole (text : List Char) : Prop := Digits text ∧ (text.head? = some '0' → text = ['0'])

inductive Fraction : List Char → Prop
  | none : Fraction []
  | some {digits : List Char} (spelled : Digits digits) : Fraction ('.' :: digits)

inductive Exponent : List Char → Prop
  | none : Exponent []
  | some {mark : Char} {sign digits : List Char} (letter : mark = 'e' ∨ mark = 'E')
      (signed : sign = [] ∨ sign = ['+'] ∨ sign = ['-']) (spelled : Digits digits) :
      Exponent (mark :: (sign ++ digits))

inductive Magnitude : List Char → Prop
  | mk {whole fraction exponent : List Char} (first : Whole whole) (second : Fraction fraction)
      (third : Exponent exponent) : Magnitude (whole ++ (fraction ++ exponent))

/-- What may follow a value: white space, a comma, or the end of what holds it. -/
def Ends (rest : List Char) : Prop :=
  ∃ c later, rest = c :: later ∧ (isSpace c = true ∨ c = ',' ∨ c = ']' ∨ c = '\x7d')

def Undigited (rest : List Char) : Prop := rest.takeWhile Char.isDigit = []

theorem ends_cases {rest : List Char} (ends : Ends rest) :
    Undigited rest ∧ ∀ c later, rest = c :: later → c ≠ '.' ∧ c ≠ 'e' ∧ c ≠ 'E' := by
  rcases ends with ⟨c, later, rfl, kind⟩
  have plain : c.isDigit = false ∧ c ≠ '.' ∧ c ≠ 'e' ∧ c ≠ 'E' := by
    rcases kind with space | rfl | rfl | rfl
    · simp only [isSpace, Bool.or_eq_true, beq_iff_eq] at space
      rcases space with ((rfl | rfl) | rfl) | rfl <;> decide
    · decide
    · decide
    · decide
  refine ⟨by simp [Undigited, plain.1], ?_⟩
  rintro _ _ same
  obtain ⟨rfl, rfl⟩ := List.cons.inj same
  exact plain.2

theorem take_digits {digits rest : List Char} (spelled : Digits digits)
    (undigited : Undigited rest) : (digits ++ rest).takeWhile Char.isDigit = digits := by
  rw [List.takeWhile_append_of_pos spelled.2, undigited, List.append_nil]

theorem drop_digits {digits rest : List Char} (spelled : Digits digits)
    (undigited : Undigited rest) : (digits ++ rest).dropWhile Char.isDigit = rest := by
  rw [List.dropWhile_append_of_pos spelled.2]
  have whole := List.takeWhile_append_dropWhile (p := Char.isDigit) (l := rest)
  rw [undigited, List.nil_append] at whole
  exact whole

theorem digits_cons {digits : List Char} (spelled : Digits digits) :
    ∃ c later, digits = c :: later ∧ c.isDigit = true := by
  rcases List.exists_cons_of_ne_nil spelled.1 with ⟨c, later, rfl⟩
  exact ⟨c, later, rfl, spelled.2 c List.mem_cons_self⟩

theorem whole_unpadded {c : Char} {later : List Char} (whole : Whole (c :: later)) :
    (c = '0' && 1 < (c :: later).length) = false := by
  by_cases zero : c = '0'
  · have alone := whole.2 (by rw [zero]; rfl)
    simp [(List.cons.inj alone).2]
  · simp [zero]

theorem skip_exponent_digits {sign digits rest : List Char}
    (signed : sign = [] ∨ sign = ['+'] ∨ sign = ['-']) (spelled : Digits digits)
    (undigited : Undigited rest) : skipExponent (sign ++ digits ++ rest) = .ok rest := by
  have dropped := drop_digits spelled undigited
  rcases digits_cons spelled with ⟨c, later, rfl, digit⟩
  have unsigned : behindSign (sign ++ c :: later ++ rest) = c :: later ++ rest := by
    rcases signed with rfl | rfl | rfl
    · have notPlus : c ≠ '+' := by
        rintro rfl
        cases digit
      have notMinus : c ≠ '-' := by
        rintro rfl
        cases digit
      simp [behindSign, notPlus, notMinus]
    · rfl
    · rfl
  rw [skip_exponent_spelled, unsigned]
  simp only [List.cons_append, behindDigits, digit, if_true]
  exact congrArg Except.ok dropped

theorem skip_mark_exponent {exponent rest : List Char} (spelled : Exponent exponent)
    (ends : Ends rest) : skipMark (exponent ++ rest) = .ok rest := by
  rcases ends_cases ends with ⟨undigited, plain⟩
  cases spelled with
  | none =>
    rcases ends with ⟨c, later, rfl, _⟩
    rcases plain c later rfl with ⟨_, small, large⟩
    simp [skipMark, small, large]
  | some letter signed digits =>
    have skipped := skip_exponent_digits signed digits undigited
    rcases letter with rfl | rfl <;> exact skipped

theorem undigited_exponent {exponent rest : List Char} (spelled : Exponent exponent)
    (ends : Ends rest) : Undigited (exponent ++ rest) := by
  cases spelled with
  | none => exact (ends_cases ends).1
  | some letter => rcases letter with rfl | rfl <;> rfl

theorem undigited_fraction {fraction exponent rest : List Char} (spelled : Fraction fraction)
    (later : Exponent exponent) (ends : Ends rest) :
    Undigited (fraction ++ (exponent ++ rest)) := by
  cases spelled with
  | none =>
    rw [List.nil_append]
    exact undigited_exponent later ends
  | some => rfl

theorem skip_fraction_spelled {fraction exponent rest : List Char} (spelled : Fraction fraction)
    (later : Exponent exponent) (ends : Ends rest) :
    skipFraction (fraction ++ (exponent ++ rest)) = .ok rest := by
  have marked := skip_mark_exponent later ends
  have undigited := undigited_exponent later ends
  cases spelled with
  | some digits =>
    have taken := take_digits digits undigited
    have dropped := drop_digits digits undigited
    have filled := digits.1
    simp only [List.cons_append, skipFraction, taken, dropped, List.isEmpty_iff, filled, if_false]
    exact marked
  | none =>
    rw [List.nil_append]
    cases later with
    | none =>
      rcases ends with ⟨c, behind, rfl, kind⟩
      have point : c ≠ '.' := ((ends_cases ⟨c, behind, rfl, kind⟩).2 c behind rfl).1
      rw [List.nil_append] at marked ⊢
      simpa [skipFraction, point] using marked
    | some letter => rcases letter with rfl | rfl <;> exact marked

theorem skip_number_magnitude {number rest : List Char} (spelled : Magnitude number)
    (ends : Ends rest) : skipNumber (number ++ rest) = .ok rest := by
  rcases spelled with ⟨first, second, third⟩
  have undigited := undigited_fraction second third ends
  have taken := take_digits first.1 undigited
  have dropped := drop_digits first.1 undigited
  have skipped := skip_fraction_spelled second third ends
  rcases digits_cons first.1 with ⟨c, later, rfl, digit⟩
  rw [List.append_assoc, List.append_assoc, List.cons_append, skip_number_spelled]
  rw [List.cons_append] at taken dropped
  simp only [digit, Bool.not_true, Bool.false_eq_true, if_false, taken, whole_unpadded first,
    dropped, skipped]

def Blank (text : List Char) : Prop := ∀ c ∈ text, isSpace c = true

theorem skip_space_blank {space : List Char} (blank : Blank space) (text : List Char) :
    skipSpace (space ++ text) = skipSpace text := List.dropWhile_append_of_pos blank

theorem skip_space_cons {c : Char} (visible : isSpace c = false) (rest : List Char) :
    skipSpace (c :: rest) = c :: rest := by
  simp [skipSpace, visible]

/-- What stands before the value in a list or an object: nothing, or a name and a colon. -/
inductive Label : Frame → List Char → Prop
  | item : Label .list []
  | member {before name behind : List Char} (first : Blank before) (named : Body name)
      (second : Blank behind) :
      Label .object (before ++ '"' :: (name ++ '"' :: (behind ++ [':'])))

/-- A value, or what is left of a list or an object behind its opening bracket or behind one of
its values, the closing bracket included. -/
inductive Part
  | value
  | items (frame : Frame)
  | later (frame : Frame)

/-- What the grammar allows, with any white space in front. -/
inductive Valid : Part → List Char → Prop
  | blank {part : Part} {c : Char} {text : List Char} (space : isSpace c = true)
      (spelled : Valid part text) : Valid part (c :: text)
  | text {body : List Char} (spelled : Body body) : Valid .value ('"' :: (body ++ ['"']))
  | null : Valid .value ['n', 'u', 'l', 'l']
  | true : Valid .value ['t', 'r', 'u', 'e']
  | false : Valid .value ['f', 'a', 'l', 's', 'e']
  | positive {number : List Char} (spelled : Magnitude number) : Valid .value number
  | negative {number : List Char} (spelled : Magnitude number) : Valid .value ('-' :: number)
  | list {items : List Char} (spelled : Valid (.items .list) items) : Valid .value ('[' :: items)
  | object {items : List Char} (spelled : Valid (.items .object) items) :
      Valid .value ('\x7b' :: items)
  | none (frame : Frame) : Valid (.items frame) [frame.closing]
  | first {frame : Frame} {label value later : List Char} (labelled : Label frame label)
      (one : Valid .value value) (others : Valid (.later frame) later) :
      Valid (.items frame) (label ++ (value ++ later))
  | done (frame : Frame) : Valid (.later frame) [frame.closing]
  | next {frame : Frame} {label value later : List Char} (labelled : Label frame label)
      (one : Valid .value value) (others : Valid (.later frame) later) :
      Valid (.later frame) (',' :: (label ++ (value ++ later)))

theorem skip_label {frame : Frame} {label : List Char} (labelled : Label frame label)
    (rest : List Char) : skipToValue frame (label ++ rest) = .ok rest := by
  cases labelled with
  | item => rfl
  | @member before name behind first named second =>
    have opened : skipSpace (before ++ '"' :: (name ++ '"' :: (behind ++ [':'])) ++ rest) =
        '"' :: (name ++ '"' :: (behind ++ ':' :: rest)) := by
      rw [List.append_assoc, skip_space_blank first]
      simp [skipSpace, isSpace]
    have colon : skipSpace (behind ++ ':' :: rest) = ':' :: rest := by
      rw [skip_space_blank second]
      rfl
    simp only [skipToValue, skipName, opened, skip_string_body named, colon, ne_eq,
      not_true_eq_false, if_false]

theorem skip_scalar_step {c : Char} {text rest : List Char} (visible : isSpace c = false)
    (notList : c ≠ '[') (notObject : c ≠ '\x7b') (skipped : skipScalar c (text ++ rest) = .ok rest)
    (fuel : Nat) (frames : List Frame) :
    skipFrom (fuel + 1) .value frames (c :: text ++ rest) =
      skipFrom fuel .nextItem frames rest := by
  have begins : skipSpace (c :: text ++ rest) = c :: (text ++ rest) := skip_space_cons visible _
  rw [skip_from_scalar begins notList notObject, skipped]
  rfl

/-- White space before a value, and before whatever follows one inside a frame, is passed over. -/
theorem skip_from_blank {c : Char} (space : isSpace c = true) (fuel : Nat) (position : Position)
    (frames : List Frame) (inside : position = .value ∨ frames ≠ []) (text : List Char) :
    skipFrom fuel position frames (c :: text) = skipFrom fuel position frames text := by
  have same : skipSpace (c :: text) = skipSpace text := by simp [skipSpace, space]
  cases fuel with
  | zero => rfl
  | succ fuel =>
    cases position with
    | value => simp only [skipFrom, same]
    | firstItem | nextItem =>
      cases frames with
      | nil => simp at inside
      | cons frame frames => simp only [skipFrom, same]

def Part.position : Part → Position
  | value => .value
  | items _ => .firstItem
  | later _ => .nextItem

/-- The frames that are open before a part of a value. -/
def Part.opens (frames : List Frame) : Part → List Frame
  | value => frames
  | items frame | later frame => frame :: frames

/-- The part is passed over in a number of steps, whatever frames it stands in. -/
def Passes (part : Part) (text : List Char) : Prop :=
  ∃ steps, steps < 2 * text.length ∧ ∀ fuel frames rest, (part = .value → Ends rest) →
    skipFrom (fuel + steps) part.position (part.opens frames) (text ++ rest) =
      skipFrom fuel .nextItem frames rest

theorem passes_scalar {c : Char} {text : List Char} (visible : isSpace c = false)
    (notList : c ≠ '[') (notObject : c ≠ '\x7b')
    (skipped : ∀ rest, Ends rest → skipScalar c (text ++ rest) = .ok rest) :
    Passes .value (c :: text) := by
  refine ⟨1, by rw [List.length_cons]; omega, ?_⟩
  intro fuel frames rest ends
  exact skip_scalar_step visible notList notObject (skipped rest (ends rfl)) fuel frames

theorem magnitude_cons {number : List Char} (spelled : Magnitude number) :
    ∃ c later, number = c :: later ∧ c.isDigit = true := by
  rcases spelled with ⟨first, _, _⟩
  rcases digits_cons first.1 with ⟨c, later, rfl, digit⟩
  exact ⟨c, _, rfl, digit⟩

theorem digit_apart {c : Char} (digit : c.isDigit = true) :
    isSpace c = false ∧ c ≠ '[' ∧ c ≠ '\x7b' ∧ c ≠ '"' ∧ c ≠ 'n' ∧ c ≠ 't' ∧ c ≠ 'f' ∧
      c ≠ '-' := by
  refine ⟨?_, ?_, ?_, ?_, ?_, ?_, ?_, ?_⟩
  · by_contra space
    simp only [isSpace, Bool.or_eq_true, beq_iff_eq, Bool.not_eq_false] at space
    rcases space with ((rfl | rfl) | rfl) | rfl <;> cases digit
  all_goals
    rintro rfl
    cases digit

theorem closing_visible (frame : Frame) : isSpace frame.closing = false := by
  cases frame <;> rfl

theorem closing_not_comma (frame : Frame) : frame.closing ≠ ',' := by
  cases frame <;> decide

theorem later_ends {frame : Frame} {part : Part} {text : List Char}
    (spelled : Valid part text) (behind : part = .later frame) (rest : List Char) :
    Ends (text ++ rest) := by
  cases spelled with
  | blank space => exact ⟨_, _, rfl, .inl space⟩
  | done frame => cases frame <;> exact ⟨_, _, rfl, by simp [Frame.closing]⟩
  | next => exact ⟨',', _, rfl, .inr (.inl rfl)⟩
  | _ => cases behind

theorem value_begins {part : Part} {text : List Char} (spelled : Valid part text)
    (value : part = .value) (rest : List Char) :
    ∃ c later, skipSpace (text ++ rest) = c :: later ∧ c ≠ ']' := by
  have visible : ∀ {c : Char} {letters : List Char}, isSpace c = false → c ≠ ']' →
      ∃ first later, skipSpace (c :: letters ++ rest) = first :: later ∧ first ≠ ']' := by
    intro c letters visible notClosing
    exact ⟨c, letters ++ rest, skip_space_cons visible _, notClosing⟩
  induction spelled with
  | blank space _ induction =>
    rcases induction value with ⟨c, later, begins, notClosing⟩
    exact ⟨c, later, by simpa [skipSpace, space] using begins, notClosing⟩
  | positive spelled =>
    rcases magnitude_cons spelled with ⟨c, later, rfl, digit⟩
    refine visible (digit_apart digit).1 ?_
    rintro rfl
    cases digit
  | text | null | true | false | negative | list | object => exact visible (by decide) (by decide)
  | none | first | done | next => cases value

theorem label_opens {frame : Frame} {label value : List Char} (labelled : Label frame label)
    (one : Valid .value value) (rest : List Char) :
    ∃ c later, skipSpace (label ++ (value ++ rest)) = c :: later ∧ c ≠ frame.closing := by
  cases labelled with
  | item => exact value_begins one rfl rest
  | @member before name behind first =>
    refine ⟨'"', name ++ '"' :: (behind ++ ':' :: (value ++ rest)), ?_, by decide⟩
    rw [List.append_assoc, skip_space_blank first]
    simp [skipSpace, isSpace]

theorem skip_space_twice (text : List Char) : skipSpace (skipSpace text) = skipSpace text :=
  List.dropWhile_idempotent isSpace text

theorem skip_item_trimmed (frame : Frame) (fuel : Nat) (frames : List Frame) (text : List Char) :
    (skipToValue frame (skipSpace text)).bind (skipFrom fuel .value frames) =
      (skipToValue frame text).bind (skipFrom fuel .value frames) := by
  cases frame with
  | list =>
    show skipFrom fuel .value frames (skipSpace text) = skipFrom fuel .value frames text
    cases fuel with
    | zero => rfl
    | succ fuel => simp only [skipFrom, skip_space_twice]
  | object => simp only [skipToValue, skipName, skip_space_twice]

theorem skip_first {frame : Frame} {label value : List Char} (labelled : Label frame label)
    (one : Valid .value value) (rest : List Char) (fuel : Nat) (frames : List Frame) :
    skipFrom (fuel + 1) .firstItem (frame :: frames) (label ++ (value ++ rest)) =
      skipFrom fuel .value (frame :: frames) (value ++ rest) := by
  rcases label_opens labelled one rest with ⟨c, later, begins, other⟩
  rw [skip_from_frame (by decide) begins, if_neg other, if_pos rfl, ← begins, skip_item_trimmed,
    skip_label labelled]
  rfl

theorem skip_next {frame : Frame} {label : List Char} (labelled : Label frame label)
    (rest : List Char) (fuel : Nat) (frames : List Frame) :
    skipFrom (fuel + 1) .nextItem (frame :: frames) (',' :: (label ++ rest)) =
      skipFrom fuel .value (frame :: frames) rest := by
  have begins : skipSpace (',' :: (label ++ rest)) = ',' :: (label ++ rest) := rfl
  rw [skip_from_frame (by decide) begins, if_neg (Ne.symm (closing_not_comma frame)),
    if_neg (by decide), if_neg (by decide), skip_label labelled]
  rfl

theorem skip_closing {position : Position} (behindValue : position ≠ .value) (frame : Frame)
    (rest : List Char) (fuel : Nat) (frames : List Frame) :
    skipFrom (fuel + 1) position (frame :: frames) (frame.closing :: rest) =
      skipFrom fuel .nextItem frames rest := by
  have begins := skip_space_cons (closing_visible frame) rest
  rw [skip_from_frame behindValue begins, if_pos rfl]

theorem passes_text {body : List Char} (spelled : Body body) :
    Passes .value ('"' :: (body ++ ['"'])) := by
  apply passes_scalar (by decide) (by decide) (by decide)
  intro rest _
  have skipped := skip_string_body spelled rest
  simpa [skipScalar] using skipped

theorem passes_positive {number : List Char} (spelled : Magnitude number) :
    Passes .value number := by
  have skipped : ∀ rest, Ends rest → skipNumber (number ++ rest) = .ok rest :=
    fun rest ends => skip_number_magnitude spelled ends
  rcases magnitude_cons spelled with ⟨c, later, rfl, digit⟩
  rcases digit_apart digit with ⟨visible, notList, notObject, quote, null, true, false, minus⟩
  apply passes_scalar visible notList notObject
  intro rest ends
  simpa [skipScalar, quote, null, true, false, minus, digit] using skipped rest ends

theorem passes_negative {number : List Char} (spelled : Magnitude number) :
    Passes .value ('-' :: number) := by
  apply passes_scalar (by decide) (by decide) (by decide)
  intro rest ends
  simpa [skipScalar] using skip_number_magnitude spelled ends

theorem passes_opened {frame : Frame} {c : Char} {items : List Char}
    (opens : ∀ fuel frames text, skipFrom (fuel + 1) .value frames (c :: text) =
      skipFrom fuel .firstItem (frame :: frames) text)
    (passed : Passes (.items frame) items) : Passes .value (c :: items) := by
  rcases passed with ⟨steps, few, passed⟩
  refine ⟨steps + 1, by rw [List.length_cons]; omega, ?_⟩
  intro fuel frames rest _
  have inside := passed fuel frames rest (fun same => by cases same)
  exact (opens (fuel + steps) frames (items ++ rest)).trans inside

theorem passes_item {frame : Frame} {value later : List Char} (others : Valid (.later frame) later)
    (one : Passes .value value) (passed : Passes (.later frame) later) :
    ∃ steps, steps + 1 < 2 * (value ++ later).length ∧ ∀ fuel frames rest,
      skipFrom (fuel + steps) .value (frame :: frames) (value ++ (later ++ rest)) =
        skipFrom fuel .nextItem frames rest := by
  rcases one with ⟨first, few, passedFirst⟩
  rcases passed with ⟨second, fewer, passedLater⟩
  refine ⟨second + first, by rw [List.length_append]; omega, ?_⟩
  intro fuel frames rest
  have ends := later_ends others rfl rest
  have inside := passedFirst (fuel + second) (frame :: frames) (later ++ rest) fun _ => ends
  rw [← Nat.add_assoc]
  exact inside.trans (passedLater fuel frames rest fun same => by cases same)

/-- Whatever the grammar allows is passed over exactly. -/
theorem valid_passes {part : Part} {text : List Char} (spelled : Valid part text) :
    Passes part text := by
  induction spelled with
  | @blank part c text space spelled induction =>
    rcases induction with ⟨steps, few, passed⟩
    refine ⟨steps, by rw [List.length_cons]; omega, ?_⟩
    intro fuel frames rest ends
    rw [List.cons_append, skip_from_blank space]
    · exact passed fuel frames rest ends
    · cases part <;> simp [Part.position, Part.opens]
  | text spelled => exact passes_text spelled
  | null | true | false => exact passes_scalar (by decide) (by decide) (by decide) fun _ _ => rfl
  | positive spelled => exact passes_positive spelled
  | negative spelled => exact passes_negative spelled
  | list spelled induction => exact passes_opened (fun _ _ _ => rfl) induction
  | object spelled induction => exact passes_opened (fun _ _ _ => rfl) induction
  | none frame =>
    refine ⟨1, by simp, ?_⟩
    intro fuel frames rest _
    exact skip_closing (by simp [Part.position]) frame rest fuel frames
  | done frame =>
    refine ⟨1, by simp, ?_⟩
    intro fuel frames rest _
    exact skip_closing (by simp [Part.position]) frame rest fuel frames
  | @first frame label value later labelled one others passed passedLater =>
    rcases passes_item others passed passedLater with ⟨steps, few, passed⟩
    refine ⟨steps + 1, by rw [List.length_append]; omega, ?_⟩
    intro fuel frames rest _
    rw [List.append_assoc, List.append_assoc]
    exact (skip_first labelled one (later ++ rest) (fuel + steps) frames).trans
      (passed fuel frames rest)
  | @next frame label value later labelled one others passed passedLater =>
    rcases passes_item others passed passedLater with ⟨steps, few, passed⟩
    refine ⟨steps + 1, by rw [List.length_cons, List.length_append]; omega, ?_⟩
    intro fuel frames rest _
    rw [List.cons_append, List.append_assoc, List.append_assoc]
    exact (skip_next labelled (value ++ (later ++ rest)) (fuel + steps) frames).trans
      (passed fuel frames rest)

/-- A value that the grammar allows is passed over up to what follows it. -/
theorem skip_value_valid {value rest : List Char} (spelled : Valid .value value)
    (ends : Ends rest) : skipValue (value ++ rest) = .ok rest := by
  rcases valid_passes spelled with ⟨steps, few, passed⟩
  obtain ⟨fuel, enough⟩ : ∃ fuel, 2 * (value ++ rest).length + 2 = fuel + 1 + steps := by
    rw [List.length_append]
    exact ⟨2 * (value.length + rest.length) + 1 - steps, by omega⟩
  have inside := passed (fuel + 1) [] rest fun _ => ends
  rw [skipValue, enough]
  exact inside.trans (skip_from_done (by decide) fuel rest)

end ShortLinks.Json
