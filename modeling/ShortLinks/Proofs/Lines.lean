import ShortLinks.Text.Blank
import ShortLinks.Text.Lines
import Mathlib.Data.List.Basic
import Mathlib.Data.List.TakeWhile

/-!
# Lines and the white space around them

Behind bytes that end in a newline a new line begins, so such bytes are split apart from
what follows them. Trimming leaves a core with no white space at its ends, and it finds the
core again whatever white space is put around it.
-/

namespace ShortLinks.Text

set_option autoImplicit false

/-- Nothing stands behind the last newline. -/
def Closed (bytes : Bytes) : Prop := bytes = [] ∨ ∃ front, bytes = front ++ [newline]

theorem closed_append {first second : Bytes} (firstClosed : Closed first)
    (secondClosed : Closed second) : Closed (first ++ second) := by
  obtain rfl | ⟨front, rfl⟩ := secondClosed
  · simpa using firstClosed
  · exact .inr ⟨first ++ front, by simp⟩

theorem split_newline_cons (rest : Bytes) :
    splitLines (newline :: rest) = [] :: splitLines rest := by
  simp [splitLines]

theorem split_lines_terminated {line : Bytes} (whole : newline ∉ line) (rest : Bytes) :
    splitLines (line ++ newline :: rest) = line :: splitLines rest := by
  induction line with
  | nil => exact split_newline_cons rest
  | cons byte line ih =>
    simp only [List.mem_cons, not_or] at whole
    have other : byte ≠ newline := fun same => whole.1 same.symm
    simp only [List.cons_append, splitLines, if_neg other, ih whole.2]

theorem split_lines_open {line : Bytes} (whole : newline ∉ line) (filled : line ≠ []) :
    splitLines line = [line] := by
  induction line with
  | nil => exact absurd rfl filled
  | cons byte line ih =>
    simp only [List.mem_cons, not_or] at whole
    have other : byte ≠ newline := fun same => whole.1 same.symm
    cases line with
    | nil => simp [splitLines, other]
    | cons next line =>
      have rest := ih whole.2 (by simp)
      rw [splitLines, if_neg other, rest]

theorem split_lines_ne_nil {bytes : Bytes} (filled : bytes ≠ []) : splitLines bytes ≠ [] := by
  cases bytes with
  | nil => exact absurd rfl filled
  | cons byte rest =>
    unfold splitLines
    split
    · simp
    · split <;> simp

theorem split_lines_append {first : Bytes} (closed : Closed first) (second : Bytes) :
    splitLines (first ++ second) = splitLines first ++ splitLines second := by
  obtain rfl | ⟨front, rfl⟩ := closed
  · rfl
  · induction front with
    | nil => simp [splitLines]
    | cons byte front ih =>
      have filled : splitLines (front ++ [newline]) ≠ [] := split_lines_ne_nil (by simp)
      rcases List.exists_cons_of_ne_nil filled with ⟨line, lines, split⟩
      rw [split, List.append_assoc, List.singleton_append] at ih
      simp only [List.cons_append, List.append_assoc, List.nil_append, splitLines, ih, split]
      split_ifs <;> rfl

/-- Neither the first nor the last character is white space. -/
structure Visible (core : List Char) : Prop where
  first : ∀ c, core.head? = some c → isBlank c = false
  last : ∀ c, core.getLast? = some c → isBlank c = false

theorem drop_of_visible {core : List Char} (visible : Visible core) :
    core.dropWhile isBlank = core := by
  cases core with
  | nil => rfl
  | cons c core => exact List.dropWhile_cons_of_neg (by simp [visible.first c rfl])

theorem visible_reverse {core : List Char} (visible : Visible core) : Visible core.reverse := by
  constructor
  · simpa using visible.last
  · simpa using visible.first

theorem trim_of_visible {core : List Char} (visible : Visible core) : trim core = core := by
  rw [trim, drop_of_visible visible, drop_of_visible (visible_reverse visible),
    List.reverse_reverse]

theorem trim_behind_blank {before : List Char} (blank : ∀ c ∈ before, isBlank c = true)
    (text : List Char) : trim (before ++ text) = trim text := by
  rw [trim, List.dropWhile_append_of_pos blank, trim]

theorem trim_before_blank {after : List Char} (blank : ∀ c ∈ after, isBlank c = true)
    (text : List Char) : trim (text ++ after) = trim text := by
  have blankReversed : ∀ c ∈ after.reverse, isBlank c = true := by simpa using blank
  have nothing : after.dropWhile isBlank = [] := List.dropWhile_eq_nil_iff.2 blank
  rw [trim, List.dropWhile_append, trim]
  by_cases empty : (text.dropWhile isBlank).isEmpty
  · rw [if_pos empty, nothing, List.isEmpty_iff.1 empty]
  · rw [if_neg empty, List.reverse_append, List.dropWhile_append_of_pos blankReversed]

theorem trim_reversed (text : List Char) :
    text.dropWhile isBlank =
      trim text ++ ((text.dropWhile isBlank).reverse.takeWhile isBlank).reverse := by
  rw [trim, ← List.reverse_append, List.takeWhile_append_dropWhile, List.reverse_reverse]

theorem trim_within (text : List Char) :
    ∃ before after, (∀ c ∈ before, isBlank c = true) ∧ (∀ c ∈ after, isBlank c = true) ∧
      text = before ++ (trim text ++ after) := by
  refine ⟨text.takeWhile isBlank,
    ((text.dropWhile isBlank).reverse.takeWhile isBlank).reverse, ?_, ?_, ?_⟩
  · intro c held
    exact List.mem_takeWhile_imp held
  · intro c held
    exact List.mem_takeWhile_imp (List.mem_reverse.1 held)
  · rw [← trim_reversed, List.takeWhile_append_dropWhile]

theorem trim_visible (text : List Char) : Visible (trim text) := by
  have visibleFirst : ∀ (letters : List Char) (c : Char),
      (letters.dropWhile isBlank).head? = some c → isBlank c = false := by
    intro letters c begins
    have visible := List.head?_dropWhile_not isBlank letters
    rw [begins] at visible
    simpa using visible
  constructor
  · intro c begins
    apply visibleFirst text c
    rw [trim_reversed, List.head?_append, begins]
    rfl
  · intro c ends
    rw [trim, List.getLast?_reverse] at ends
    exact visibleFirst _ c ends

theorem blank_of_trim {blank : List Char} (nothing : trim blank = []) :
    ∀ c ∈ blank, isBlank c = true := by
  rcases trim_within blank with ⟨before, after, blankBefore, blankAfter, same⟩
  rw [nothing, List.nil_append] at same
  intro c held
  rw [same, List.mem_append] at held
  exact held.elim (blankBefore c) (blankAfter c)

theorem trim_append {first second : List Char} (core : trim first ≠ []) (visible : Visible second)
    (filled : second ≠ []) :
    ∃ gap, (∀ c ∈ gap, isBlank c = true) ∧
      trim (first ++ second) = trim first ++ (gap ++ second) := by
  rcases trim_within first with ⟨before, after, blankBefore, blankAfter, same⟩
  refine ⟨after, blankAfter, ?_⟩
  have joined : Visible (trim first ++ (after ++ second)) := by
    constructor
    · intro c begins
      rw [List.head?_append_of_ne_nil _ core] at begins
      exact (trim_visible first).first c begins
    · intro c ends
      rw [← List.append_assoc, List.getLast?_append_of_ne_nil _ filled] at ends
      exact visible.last c ends
  have spelled : first ++ second = before ++ (trim first ++ (after ++ second)) := by
    simpa only [List.append_assoc] using congrArg (· ++ second) same
  rw [spelled, trim_behind_blank blankBefore, trim_of_visible joined]

end ShortLinks.Text
