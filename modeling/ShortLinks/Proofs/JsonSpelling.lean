import ShortLinks.Proofs.JsonGrammar

/-!
# What a spelling stands for

A character of a string may stand for itself, or be escaped by a letter, by four hexadecimal
digits, or by a pair of surrogates. The reader takes every such spelling for the text it stands
for, and takes nothing else: a string in which a surrogate has no partner stands for no text and
is refused. The same goes for the values that a record asks for.
-/

namespace ShortLinks.Json

set_option autoImplicit false

/-- The ways to write one character of a string. -/
inductive Spells : Char → List Char → Prop
  | plain {c : Char} (notQuote : c ≠ '"') (notBackslash : c ≠ '\\')
      (visible : isControl c = false) : Spells c [c]
  | short {letter meant : Char} (escape : shortEscape? letter = some meant) :
      Spells meant ['\\', letter]
  | unit {a b c d : Char} {value : Nat} (digits : hexWord? a b c d = some value)
      (notLow : isLowSurrogate value = false) (notHigh : isHighSurrogate value = false) :
      Spells (Char.ofNat value) ['\\', 'u', a, b, c, d]
  | pair {a b c d e f g h : Char} {high low : Nat} (first : hexWord? a b c d = some high)
      (second : hexWord? e f g h = some low) (isHigh : isHighSurrogate high = true)
      (isLow : isLowSurrogate low = true) :
      Spells (surrogatePair high low) ['\\', 'u', a, b, c, d, '\\', 'u', e, f, g, h]

/-- The ways to write a text between the quotes of a string. -/
inductive SpellsText : List Char → List Char → Prop
  | nil : SpellsText [] []
  | cons {c : Char} {text letter body : List Char} (first : Spells c letter)
      (later : SpellsText text body) : SpellsText (c :: text) (letter ++ body)

theorem read_string_plain {c : Char} (notQuote : c ≠ '"') (notBackslash : c ≠ '\\')
    (visible : isControl c = false) (rest : List Char) :
    readString .plain (c :: rest) =
      (readString .plain rest).map fun (text, behind) => (c :: text, behind) := by
  simp [readString, notQuote, notBackslash, visible]

theorem read_string_short {letter meant : Char} (short : shortEscape? letter = some meant)
    (rest : List Char) :
    readString .plain ('\\' :: letter :: rest) =
      (readString .plain rest).map fun (text, behind) => (meant :: text, behind) := by
  have notUnicode : letter ≠ 'u' := by
    rintro rfl
    simp [shortEscape?] at short
  simp [readString, notUnicode, short]

theorem high_not_low {unit : Nat} (high : isHighSurrogate unit = true) :
    isLowSurrogate unit = false := by
  simp only [isHighSurrogate, isLowSurrogate, Bool.and_eq_true, decide_eq_true_eq,
    Bool.and_eq_false_iff, decide_eq_false_iff_not] at high ⊢
  omega

theorem read_string_word {a b c d : Char} {value : Nat} (digits : hexWord? a b c d = some value)
    (high : Option Nat) (rest : List Char) :
    readString (.hex high 0 0) (a :: b :: c :: d :: rest) =
      match hexUnit high value with
      | .error fault => .error fault
      | .ok (.inr first) => readString (.afterHigh first) rest
      | .ok (.inl meant) =>
          (readString .plain rest).map fun (text, behind) => (meant :: text, behind) := by
  rcases hex_word_digits digits with ⟨first, second, third, fourth, one, two, three, four, same⟩
  rcases unit : hexUnit high value with fault | character | first
  all_goals simp [readString, one, two, three, four, same, unit]

theorem read_string_escape (a b c d : Char) (rest : List Char) :
    readString .plain ('\\' :: 'u' :: a :: b :: c :: d :: rest) =
      readString (.hex none 0 0) (a :: b :: c :: d :: rest) := rfl

theorem read_string_partner (high : Nat) (a b c d : Char) (rest : List Char) :
    readString (.afterHigh high) ('\\' :: 'u' :: a :: b :: c :: d :: rest) =
      readString (.hex (some high) 0 0) (a :: b :: c :: d :: rest) := rfl

theorem read_string_spells {c : Char} {letter : List Char} (spelled : Spells c letter)
    (rest : List Char) :
    readString .plain (letter ++ rest) =
      (readString .plain rest).map fun (text, behind) => (c :: text, behind) := by
  cases spelled with
  | plain notQuote notBackslash visible =>
    exact read_string_plain notQuote notBackslash visible rest
  | short escape => exact read_string_short escape rest
  | unit digits notLow notHigh =>
    simp only [List.cons_append, List.nil_append, read_string_escape, read_string_word digits]
    simp [hexUnit, notLow, notHigh]
  | pair first second isHigh isLow =>
    simp only [List.cons_append, List.nil_append, read_string_escape, read_string_word first]
    simp only [hexUnit, high_not_low isHigh, isHigh, if_true, Bool.false_eq_true, if_false]
    rw [read_string_partner, read_string_word second]
    simp [hexUnit, isLow]

theorem read_string_spelled {text body : List Char} (spelled : SpellsText text body)
    (rest : List Char) : readString .plain (body ++ '"' :: rest) = .ok (text, rest) := by
  induction spelled with
  | nil => simp [readString]
  | cons first later ih =>
    rw [List.append_assoc, read_string_spells first, ih]
    rfl

theorem body_append {first later : List Char} (one : Body first) (other : Body later) :
    Body (first ++ later) := by
  induction one with
  | nil => exact other
  | cons letter _ ih =>
    rw [List.append_assoc]
    exact .cons letter ih

theorem spells_letter {c : Char} {letter : List Char} (spelled : Spells c letter) :
    Body letter := by
  cases spelled with
  | plain notQuote notBackslash visible =>
    exact .cons (.plain notQuote notBackslash visible) .nil
  | short escape => exact .cons (.short escape) .nil
  | unit digits => exact .cons (.unit digits) .nil
  | pair first second => exact .cons (.unit first) (.cons (.unit second) .nil)

/-- The ways to write a text whose first character began with a high surrogate. -/
inductive SpellsPartner (high : Nat) : List Char → List Char → Prop
  | mk {e f g h : Char} {low : Nat} {text body : List Char} (second : hexWord? e f g h = some low)
      (isLow : isLowSurrogate low = true) (later : SpellsText text body) :
      SpellsPartner high (surrogatePair high low :: text) (['\\', 'u', e, f, g, h] ++ body)

theorem SpellsPartner.paired {a b c d : Char} {high : Nat} {text body : List Char}
    (first : hexWord? a b c d = some high) (isHigh : isHighSurrogate high = true)
    (partner : SpellsPartner high text body) :
    SpellsText text (['\\', 'u', a, b, c, d] ++ body) := by
  rcases partner with ⟨second, isLow, later⟩
  have both := SpellsText.cons (.pair first second isHigh isLow) later
  exact both

/-- An escape by four digits is a character, or half of a pair. -/
theorem read_unit_ok {a b c d : Char} {value : Nat} (digits : hexWord? a b c d = some value)
    {rest text behind : List Char}
    (read : readString .plain (['\\', 'u', a, b, c, d] ++ rest) = .ok (text, behind)) :
    isLowSurrogate value = false ∧ isHighSurrogate value = false ∨
      isHighSurrogate value = true ∧
        readString (.afterHigh value) rest = .ok (text, behind) := by
  simp only [List.cons_append, List.nil_append, read_string_escape, read_string_word digits]
    at read
  cases isLow : isLowSurrogate value with
  | true =>
    simp only [hexUnit, isLow, if_true] at read
    cases read
  | false =>
    cases isHigh : isHighSurrogate value with
    | false => exact .inl ⟨rfl, rfl⟩
    | true =>
      simp only [hexUnit, isLow, isHigh, if_true, Bool.false_eq_true, if_false] at read
      exact .inr ⟨rfl, read⟩

theorem read_partner_ok {a b c d : Char} {high value : Nat}
    (digits : hexWord? a b c d = some value) {rest text behind : List Char}
    (read : readString (.afterHigh high) (['\\', 'u', a, b, c, d] ++ rest) = .ok (text, behind)) :
    isLowSurrogate value = true ∧ ∃ letters, readString .plain rest = .ok (letters, behind) ∧
      surrogatePair high value :: letters = text := by
  simp only [List.cons_append, List.nil_append, read_string_partner, read_string_word digits]
    at read
  cases isLow : isLowSurrogate value with
  | false =>
    simp only [hexUnit, isLow, Bool.false_eq_true, if_false] at read
    cases read
  | true =>
    simp only [hexUnit, isLow, if_true] at read
    exact ⟨rfl, map_front_ok read⟩

/-- What the reader took for a text spells it. Behind a high surrogate the text begins with the
partner. -/
theorem spelled_of_read {body : List Char} (formed : Body body) (rest : List Char) :
    (∀ text behind, readString .plain (body ++ '"' :: rest) = .ok (text, behind) →
      SpellsText text body ∧ behind = rest) ∧
    ∀ high text behind, readString (.afterHigh high) (body ++ '"' :: rest) = .ok (text, behind) →
      SpellsPartner high text body ∧ behind = rest := by
  induction formed with
  | nil =>
    refine ⟨?_, ?_⟩
    · intro text behind read
      rcases Prod.mk.inj (Except.ok.inj read) with ⟨rfl, rfl⟩
      exact ⟨.nil, rfl⟩
    · intro high text behind read
      cases read
  | @cons letter body first later ih =>
    rcases ih with ⟨plain, partner⟩
    have alone : ∀ {c : Char}, Spells c letter → ∀ text behind,
        readString .plain (letter ++ body ++ '"' :: rest) = .ok (text, behind) →
          SpellsText text (letter ++ body) ∧ behind = rest := by
      intro c spelled text behind read
      rw [List.append_assoc, read_string_spells spelled] at read
      rcases map_front_ok read with ⟨letters, inner, rfl⟩
      exact (plain letters behind inner).imp_left (.cons spelled)
    cases first with
    | @plain c notQuote notBackslash visible =>
      refine ⟨alone (.plain notQuote notBackslash visible), ?_⟩
      intro high text behind read
      simp [readString, notBackslash] at read
    | @short letter meant escape =>
      refine ⟨alone (.short escape), ?_⟩
      intro high text behind read
      have notUnicode : letter ≠ 'u' := by
        rintro rfl
        simp [shortEscape?] at escape
      simp [readString, notUnicode] at read
    | @unit a b c d value digits =>
      refine ⟨?_, ?_⟩
      · intro text behind read
        rcases read_unit_ok digits read with ⟨notLow, notHigh⟩ | ⟨isHigh, inner⟩
        · exact alone (.unit digits notLow notHigh) text behind read
        · exact (partner value text behind inner).imp_left (SpellsPartner.paired digits isHigh)
      · intro high text behind read
        rcases read_partner_ok digits read with ⟨isLow, letters, inner, rfl⟩
        exact (plain letters behind inner).imp_left (.mk digits isLow)

/-- A well-formed string is read as the text that it spells, or refused if it spells none. -/
theorem read_string_iff {body : List Char} (formed : Body body) (rest text behind : List Char) :
    readString .plain (body ++ '"' :: rest) = .ok (text, behind) ↔
      SpellsText text body ∧ behind = rest := by
  constructor
  · exact (spelled_of_read formed rest).1 text behind
  · rintro ⟨spelled, rfl⟩
    exact read_string_spelled spelled behind

theorem spelled_body {text body : List Char} (spelled : SpellsText text body) : Body body := by
  induction spelled with
  | nil => exact .nil
  | cons first _ ih => exact body_append (spells_letter first) ih

theorem spells_written (c : Char) : Spells c (writtenChar c) := by
  unfold writtenChar
  split_ifs with quote backslash backspace feed newline carriage tab control
  · exact .short (by rw [quote]; rfl)
  · exact .short (by rw [backslash]; rfl)
  · exact .short (by rw [backspace]; rfl)
  · exact .short (by rw [feed]; rfl)
  · exact .short (by rw [newline]; rfl)
  · exact .short (by rw [carriage]; rfl)
  · exact .short (by rw [tab]; rfl)
  · have small : c.toNat < 0x20 := by simpa [isControl] using control
    have digits : hexWord? '0' '0' (Nat.digitChar (c.toNat / 16)) (Nat.digitChar (c.toNat % 16)) =
        some c.toNat := by
      have zero : Text.hexDigit? '0' = some 0 := rfl
      have high := Text.hex_digit_value (c.toNat / 16) (by omega)
      have low := Text.hex_digit_value (c.toNat % 16) (by omega)
      have whole : c.toNat / 16 * 16 + c.toNat % 16 = c.toNat := by omega
      simp [hexWord?, zero, high, low, whole]
    have notLow : isLowSurrogate c.toNat = false := by
      simp [isLowSurrogate]
      omega
    have notHigh : isHighSurrogate c.toNat = false := by
      simp [isHighSurrogate]
      omega
    simpa using Spells.unit digits notLow notHigh
  · exact .plain quote backslash (by simpa using control)

theorem spells_written_text (text : List Char) : SpellsText text (text.flatMap writtenChar) := by
  induction text with
  | nil => exact .nil
  | cons c text ih =>
    rw [List.flatMap_cons]
    exact .cons (spells_written c) ih

theorem digit_value_spelled (digits : List Char) (significand : Nat) :
    significand ≤ Nat.ofDigitChars 10 digits significand := by
  induction digits generalizing significand with
  | nil => exact Nat.le_refl significand
  | cons digit digits ih =>
    rw [Nat.ofDigitChars_cons]
    exact Nat.le_trans (by omega) (ih _)

theorem absorb_whole {digits : List Char} {significand : Nat}
    (fits : Nat.ofDigitChars 10 digits significand ≤ wordLimit) :
    absorb significand digits = (Nat.ofDigitChars 10 digits significand, digits.length, 0) := by
  induction digits generalizing significand with
  | nil => rfl
  | cons digit digits ih =>
    have next : Nat.ofDigitChars 10 (digit :: digits) significand =
        Nat.ofDigitChars 10 digits (significand * 10 + digitValue digit) := by
      rw [Nat.ofDigitChars_cons, Nat.mul_comm, digitValue]
    have bound := digit_value_spelled digits (significand * 10 + digitValue digit)
    rw [next] at fits ⊢
    have small : ¬ wordLimit < significand * 10 + digitValue digit := by omega
    simp only [absorb, small, if_false, ih fits, List.length_cons]

theorem absorb_fits {significand : Nat} (small : significand ≤ wordLimit) (digits : List Char) :
    (absorb significand digits).1 ≤ wordLimit := by
  induction digits generalizing significand with
  | nil => exact small
  | cons digit digits ih =>
    simp only [absorb]
    split
    · exact small
    · rename_i next
      exact ih (Nat.not_lt.1 next)

theorem zero_of_leading {number : Nat} (zero : (Nat.toDigits 10 number).head? = some '0') :
    number = 0 := by
  induction number using Nat.strong_induction_on with
  | h number ih =>
    by_cases single : number < 10
    · rw [Nat.toDigits_of_lt_base single] at zero
      exact Nat.digitChar_eq_zero.1 (Option.some.inj zero)
    · rw [Nat.toDigits_of_base_le (by decide) (by omega), List.head?_append_of_ne_nil _
        Nat.toDigits_ne_nil] at zero
      have high := ih (number / 10) (by omega) zero
      omega

theorem written_whole (number : Nat) : Whole (Nat.toDigits 10 number) := by
  refine ⟨⟨Nat.toDigits_ne_nil, ?_⟩, ?_⟩
  · intro c held
    exact Nat.isDigit_of_mem_toDigits (by decide) (by decide) held
  · intro zero
    rw [zero_of_leading zero]
    rfl

theorem read_number_written {number : Nat} (fits : number ≤ wordLimit) {rest : List Char}
    (ends : Ends rest) :
    readNumber false (Nat.toDigits 10 number ++ rest) = .ok (.natural number, rest) := by
  have whole := written_whole number
  have undigited := (ends_cases ends).1
  have taken := take_digits whole.1 undigited
  have dropped := drop_digits whole.1 undigited
  have value : Nat.ofDigitChars 10 (Nat.toDigits 10 number) 0 = number :=
    Nat.ofDigitChars_ten_toDigits
  have absorbed : absorb 0 (Nat.toDigits 10 number) =
      (number, (Nat.toDigits 10 number).length, 0) := by
    rw [absorb_whole (by omega), value]
  generalize Nat.toDigits 10 number = digits at whole taken dropped absorbed
  rcases digits_cons whole.1 with ⟨c, later, rfl, digit⟩
  have single := whole_unpadded whole
  rcases ends with ⟨mark, behind, rfl, kind⟩
  rcases (ends_cases ⟨mark, behind, rfl, kind⟩).2 mark behind rfl with ⟨point, small, large⟩
  rw [List.cons_append] at taken dropped ⊢
  simp only [readNumber, digit, taken, dropped, single, absorbed]
  simp [point, small, large]

theorem floating_number_floats {significand : Nat} {exponent : Int} {rest behind : List Char}
    {number : Number} (read : floatingNumber significand exponent rest = .ok (number, behind)) :
    number = .floating := by
  unfold floatingNumber at read
  split at read
  · cases read
  · exact (Prod.mk.inj (Except.ok.inj read)).1.symm

theorem read_exponent_floats {significand : Nat} {start : Int} {text behind : List Char}
    {number : Number} (read : readExponent significand start text = .ok (number, behind)) :
    number = .floating := by
  unfold readExponent at read
  simp only at read
  split at read
  · cases read
  · split_ifs at read
    · exact (Prod.mk.inj (Except.ok.inj read)).1.symm
    · exact floating_number_floats read
    · exact floating_number_floats read

theorem read_fraction_floats {significand : Nat} {start : Int} {text behind : List Char}
    {number : Number} (read : readFraction significand start text = .ok (number, behind)) :
    number = .floating := by
  unfold readFraction at read
  simp only at read
  split at read
  · cases read
  · split at read
    · exact read_exponent_floats read
    · exact read_exponent_floats read
    · exact floating_number_floats read

/-- A number that is read as a natural one is spelled by digits alone, and fits a word. -/
theorem read_number_natural {minus : Bool} {text rest : List Char} {value : Nat}
    (read : readNumber minus text = .ok (.natural value, rest)) :
    minus = false ∧ value ≤ wordLimit ∧ skipNumber text = .ok rest := by
  cases text with
  | nil => cases read
  | cons c text =>
    unfold readNumber at read
    unfold skipNumber
    simp only at read ⊢
    split at read
    · cases read
    · rename_i digit
      rw [if_neg digit]
      split at read
      · cases read
      · rename_i leading
        rw [if_neg leading]
        have fits := absorb_fits (Nat.zero_le wordLimit) ((c :: text).takeWhile Char.isDigit)
        split at read
        · cases read_fraction_floats read
        · cases read_exponent_floats read
        · cases read_exponent_floats read
        · split_ifs at read with left plus zero
          · cases floating_number_floats read
          · rcases Prod.mk.inj (Except.ok.inj read) with ⟨same, rfl⟩
            obtain rfl := Number.natural.inj same
            exact ⟨by simpa using plus, fits, rfl⟩
          · cases read
          · cases read

/-- The ways to write a value, with any white space in front. -/
inductive SpellsScalar : Scalar → List Char → Prop
  | blank {c : Char} {value : Scalar} {text : List Char} (space : isSpace c = true)
      (spelled : SpellsScalar value text) : SpellsScalar value (c :: text)
  | text {value : String} {body : List Char} (spelled : SpellsText value.toList body) :
      SpellsScalar (.text value) ('"' :: (body ++ ['"']))
  | true : SpellsScalar (.flag true) ['t', 'r', 'u', 'e']
  | false : SpellsScalar (.flag false) ['f', 'a', 'l', 's', 'e']
  | count (number : Nat) : SpellsScalar (.count number) (Nat.toDigits 10 number)

def Scalar.kind : Scalar → Kind
  | .text _ => .text
  | .flag _ => .flag
  | .count _ => .count

def Scalar.Fits : Scalar → Prop
  | .text _ | .flag _ => True
  | .count number => number ≤ wordLimit

theorem spells_written_scalar (value : Scalar) : SpellsScalar value (writeScalar value) := by
  cases value with
  | text text => exact .text (spells_written_text text.toList)
  | flag flag =>
    cases flag
    · exact .false
    · exact .true
  | count number => exact .count number

theorem spelled_valid {value : Scalar} {text : List Char} (spelled : SpellsScalar value text) :
    Valid .value text := by
  induction spelled with
  | blank space _ ih => exact .blank space ih
  | text spelled => exact .text (spelled_body spelled)
  | true => exact .true
  | false => exact .false
  | count number =>
    have magnitude := Magnitude.mk (written_whole number) .none .none
    rw [List.append_nil, List.append_nil] at magnitude
    exact .positive magnitude

theorem read_scalar_spelled {value : Scalar} {text : List Char} (spelled : SpellsScalar value text)
    (fits : value.Fits) {rest : List Char} (ends : Ends rest) :
    readScalar value.kind (text ++ rest) = .ok (value, rest) := by
  induction spelled with
  | blank space _ ih =>
    have same := ih fits
    simpa [readScalar, skipSpace, space] using same
  | @text value body spelled =>
    have read := read_string_spelled spelled rest
    simp [readScalar, skipSpace, isSpace, readScalarFrom, Scalar.kind, read, Except.map]
  | true => rfl
  | false => rfl
  | count number =>
    have read := read_number_written fits ends
    have whole := written_whole number
    generalize Nat.toDigits 10 number = digits at whole read
    rcases digits_cons whole.1 with ⟨c, later, rfl, digit⟩
    rcases digit_apart digit with ⟨visible, _, _, _, _, _, _, minus⟩
    rw [List.cons_append] at read ⊢
    rw [readScalar, skip_space_cons visible]
    simp [readScalarFrom, Scalar.kind, minus, digit, read, Except.bind, countOf]

/-- Where a skipped string is when the same string, read, is at a place. -/
def Within.skipping : Within → Skipping
  | plain | afterHigh _ => .plain
  | escape | escapeAfterHigh _ => .escape
  | hex _ digits _ => .hex digits

theorem read_string_skips {within : Within} {text behind value : List Char}
    (read : readString within text = .ok (value, behind)) :
    skipString within.skipping text = .ok behind := by
  fun_induction readString within text generalizing value behind with
  | case3 rest =>
    rcases Prod.mk.inj (Except.ok.inj read) with ⟨rfl, rfl⟩
    simp [skipString, Within.skipping]
  | case4 rest other ih => simpa [skipString, Within.skipping] using ih read
  | case6 c rest notQuote notBackslash visible ih =>
    rcases map_front_ok read with ⟨text, inner, rfl⟩
    simpa [skipString, Within.skipping, notQuote, notBackslash, visible] using ih inner
  | case7 rest ih => simpa [skipString, Within.skipping] using ih read
  | case9 c rest notUnicode meant short ih =>
    rcases map_front_ok read with ⟨text, inner, rfl⟩
    simpa [skipString, Within.skipping, notUnicode, short] using ih inner
  | case11 high digits value c rest digit hex unit few =>
    rename_i ih
    simpa [skipString, Within.skipping, hex, few] using ih read
  | case13 high digits value c rest digit hex unit full first surrogate =>
    rename_i ih
    simpa [skipString, Within.skipping, hex, full] using ih read
  | case14 high digits value c rest digit hex unit full meant character =>
    rename_i ih
    rcases map_front_ok read with ⟨text, inner, rfl⟩
    simpa [skipString, Within.skipping, hex, full] using ih inner
  | case15 high rest ih => simpa [skipString, Within.skipping] using ih read
  | case17 high rest ih => simpa [skipString, Within.skipping] using ih read
  | _ => cases read

theorem count_of_natural {number : Number} {text behind : List Char} {value : Scalar}
    (read : countOf (number, text) = .ok (value, behind)) :
    ∃ natural, number = .natural natural ∧ value = .count natural ∧ behind = text := by
  cases number with
  | natural natural =>
    rcases Prod.mk.inj (Except.ok.inj read) with ⟨rfl, rfl⟩
    exact ⟨natural, rfl, rfl, rfl⟩
  | negative magnitude => cases read
  | floating => cases read

/-- A value that is read fits, and ends where it would end if it were passed over. -/
theorem read_scalar_from_skips {kind : Kind} {first : Char} {text rest : List Char}
    {value : Scalar} (read : readScalarFrom kind first text = .ok (value, rest)) :
    value.Fits ∧ first ≠ '[' ∧ first ≠ '\x7b' ∧ skipScalar first text = .ok rest := by
  cases kind with
  | text =>
    simp only [readScalarFrom] at read
    split at read
    · rename_i quote
      subst quote
      rcases map_ok read with ⟨⟨letters, later⟩, inner, same⟩
      rcases Prod.mk.inj same with ⟨rfl, rfl⟩
      exact ⟨trivial, by decide, by decide, read_string_skips inner⟩
    · cases read
  | flag =>
    simp only [readScalarFrom] at read
    split_ifs at read with isTrue isFalse
    · subst isTrue
      rcases map_ok read with ⟨later, inner, same⟩
      rcases Prod.mk.inj same with ⟨rfl, rfl⟩
      exact ⟨trivial, by decide, by decide, inner⟩
    · subst isFalse
      rcases map_ok read with ⟨later, inner, same⟩
      rcases Prod.mk.inj same with ⟨rfl, rfl⟩
      exact ⟨trivial, by decide, by decide, inner⟩
  | count =>
    simp only [readScalarFrom] at read
    split_ifs at read with minus digit
    · rcases bind_ok read with ⟨⟨number, later⟩, inner, counted⟩
      rcases count_of_natural counted with ⟨natural, rfl, rfl, rfl⟩
      cases (read_number_natural inner).1
    · rcases bind_ok read with ⟨⟨number, later⟩, inner, counted⟩
      rcases count_of_natural counted with ⟨natural, rfl, rfl, rfl⟩
      rcases read_number_natural inner with ⟨_, fits, skipped⟩
      rcases digit_apart digit with ⟨_, notList, notObject, quote, null, isTrue, isFalse, _⟩
      refine ⟨fits, notList, notObject, ?_⟩
      simp [skipScalar, quote, null, isTrue, isFalse, minus, digit, skipped]

theorem read_scalar_skips {kind : Kind} {text rest : List Char} {value : Scalar}
    (read : readScalar kind text = .ok (value, rest)) :
    value.Fits ∧ skipValue text = .ok rest := by
  unfold readScalar at read
  split at read
  · cases read
  · rename_i first later begins
    rcases read_scalar_from_skips read with ⟨fits, notList, notObject, skipped⟩
    refine ⟨fits, ?_⟩
    rw [skipValue, skip_from_scalar begins notList notObject, skipped]
    exact skip_from_done (by decide) _ rest

end ShortLinks.Json
