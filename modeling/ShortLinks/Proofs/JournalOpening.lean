import ShortLinks.Proofs.FirstLines

/-!
# Which logs can be opened

A log can be opened if and only if each of its lines is a text that is white space or holds a
record between white space. Otherwise the first line that is neither decides the error, and only
its number tells anything of the lines before it. White space at the edges of lines goes
unnoticed, so it may be put there, in lines of its own too, without the index changing.
-/

namespace ShortLinks

set_option autoImplicit false

open Text (Bytes Closed newline splitLines)

namespace Text

/-- The bytes go on behind a line: with its newline, or not at all. -/
def EndsLine (bytes : Bytes) : Prop := bytes = [] ∨ ∃ later, bytes = newline :: later

theorem first_line (bytes : Bytes) :
    ∃ line rest, bytes = line ++ rest ∧ newline ∉ line ∧ EndsLine rest := by
  induction bytes with
  | nil => exact ⟨[], [], rfl, by simp, .inl rfl⟩
  | cons byte bytes induction =>
    by_cases ended : byte = newline
    · exact ⟨[], byte :: bytes, rfl, by simp, .inr ⟨bytes, by rw [ended]⟩⟩
    · obtain ⟨line, rest, rfl, alone, ends⟩ := induction
      have other : newline ≠ byte := fun same => ended same.symm
      exact ⟨byte :: line, rest, rfl, by simp [other, alone], ends⟩

theorem split_first_line {line rest : Bytes} (alone : newline ∉ line) (ends : EndsLine rest)
    (filled : line ++ rest ≠ []) : splitLines (line ++ rest) = line :: splitLines rest.tail := by
  rcases ends with rfl | ⟨later, rfl⟩
  · rw [List.append_nil] at filled ⊢
    exact split_lines_open alone filled
  · exact split_lines_terminated alone later

theorem first_of_split {log line : Bytes} {lines : List Bytes}
    (split : splitLines log = line :: lines) :
    ∃ rest, log = line ++ rest ∧ newline ∉ line ∧ EndsLine rest ∧ splitLines rest.tail = lines := by
  obtain ⟨first, rest, rfl, alone, ends⟩ := first_line log
  have filled : first ++ rest ≠ [] := by
    intro empty
    rw [empty] at split
    cases split
  rw [split_first_line alone ends filled] at split
  obtain ⟨rfl, behind⟩ := List.cons.inj split
  exact ⟨rest, rfl, alone, ends, behind⟩

theorem place_of_line {log line : Bytes} {before after : List Bytes}
    (split : splitLines log = before ++ line :: after) :
    ∃ front rest, log = front ++ (line ++ rest) ∧ Closed front ∧ splitLines front = before ∧
      newline ∉ line ∧ EndsLine rest := by
  induction before generalizing log with
  | nil =>
    obtain ⟨rest, rfl, alone, ends, _⟩ := first_of_split split
    exact ⟨[], rest, rfl, .inl rfl, rfl, alone, ends⟩
  | cons known before induction =>
    obtain ⟨rest, rfl, alone, ends, behind⟩ := first_of_split split
    obtain ⟨front, last, spelled, closed, lines, whole, boundary⟩ := induction behind
    rcases ends with rfl | ⟨later, rfl⟩
    · simp [splitLines] at behind
    · obtain rfl : later = front ++ (line ++ last) := spelled
      refine ⟨known ++ newline :: front, last, by simp, ?_, ?_, whole, boundary⟩
      · have ended : Closed (known ++ [newline]) := .inr ⟨known, rfl⟩
        simpa using closed_append ended closed
      · rw [split_lines_terminated alone, lines]

theorem length_split_closed {bytes : Bytes} (closed : Closed bytes) :
    (splitLines bytes).length = bytes.count newline := by
  rcases closed with rfl | ⟨front, rfl⟩
  · rfl
  · induction front with
    | nil => rfl
    | cons byte front induction =>
      have filled : splitLines (front ++ [newline]) ≠ [] := split_lines_ne_nil (by simp)
      obtain ⟨line, lines, split⟩ := List.exists_cons_of_ne_nil filled
      rw [split] at induction
      rw [List.cons_append, splitLines, split]
      by_cases ended : byte = newline
      · rw [if_pos ended, ended, List.count_cons_self, ← induction, List.length_cons]
      · rw [if_neg ended, List.count_cons_of_ne ended, ← induction]
        rfl

def White (text : String) : Prop := ∀ c ∈ text.toList, isBlank c = true

theorem white_nil : White "" := by simp [White]

theorem encode_nil : encode "" = [] := rfl

theorem encode_cons (c : Char) (letters : List Char) :
    encode (String.ofList (c :: letters)) =
      encode (String.ofList [c]) ++ encode (String.ofList letters) := by
  rw [← encode_append, ← String.ofList_append]
  rfl

theorem encode_newline : encode (String.ofList ['\n']) = [newline] := rfl

theorem newline_not_mem_letter {c : Char} (other : c ≠ '\n') :
    newline ∉ encode (String.ofList [c]) := by
  rw [newline_mem_encode]
  simpa using fun same : '\n' = c => other same.symm

end Text

open Text (EndsLine White)

namespace JournalLine

theorem read_same_core {first second : String}
    (core : Text.trim first.toList = Text.trim second.toList) :
    read (Text.encode first) = read (Text.encode second) := by
  simp only [read, Text.decode_encode, core]

theorem read_between_white {before after : String} (first : White before) (last : White after)
    (line : Bytes) (outcome : Option JournalLine) :
    read (Text.encode before ++ line ++ Text.encode after) = .ok outcome ↔
      read line = .ok outcome := by
  have same : ∀ text : String,
      read (Text.encode before ++ Text.encode text ++ Text.encode after) =
        read (Text.encode text) := by
    intro text
    rw [← Text.encode_append, ← Text.encode_append]
    apply read_same_core
    rw [String.toList_append, Text.trim_before_blank last, String.toList_append,
      Text.trim_behind_blank first]
  constructor
  · intro readable
    obtain ⟨whole, spelled⟩ := text_of_read readable
    obtain ⟨shorter, joined, _⟩ := Text.before_encode spelled
    obtain ⟨text, rfl, _⟩ := Text.behind_encode joined
    rwa [same] at readable
  · intro readable
    obtain ⟨text, rfl⟩ := text_of_read readable
    rwa [same]

theorem read_behind_white {pad : String} (white : White pad) (line : Bytes)
    (outcome : Option JournalLine) :
    read (Text.encode pad ++ line) = .ok outcome ↔ read line = .ok outcome := by
  have padded := read_between_white white Text.white_nil line outcome
  rwa [Text.encode_nil, List.append_nil] at padded

theorem read_before_white {pad : String} (white : White pad) (line : Bytes)
    (outcome : Option JournalLine) :
    read (line ++ Text.encode pad) = .ok outcome ↔ read line = .ok outcome :=
  read_between_white Text.white_nil white line outcome

/-- A text that is nothing but white space, or a record between white space. -/
def Acceptable (line : Bytes) : Prop :=
  ∃ text, Text.decode? line = some text ∧ (Text.trim text.toList = [] ∨
    ∃ entry, fromJson (String.ofList (Text.trim text.toList)) = .ok entry)

/-- The error of a line with a number. -/
inductive Faults (number : Nat) (line : Bytes) : StorageError → Prop
  | notText (broken : Text.decode? line = none) :
      Faults number line (.io "replay" "stream did not contain valid UTF-8")
  | notRecord {text : String} {fault : Json.Fault} (decoded : Text.decode? line = some text)
      (filled : Text.trim text.toList ≠ [])
      (broken : fromJson (String.ofList (Text.trim text.toList)) = .error fault) :
      Faults number line
        (.invalidData ("log line " ++ toString number ++ ": " ++ fault.message))

theorem acceptable_iff (line : Bytes) : Acceptable line ↔ ∃ outcome, read line = .ok outcome := by
  constructor
  · rintro ⟨text, decoded, either⟩
    rw [← Text.encode_of_decode decoded]
    by_cases blank : Text.trim text.toList = []
    · exact ⟨none, read_blank blank⟩
    · obtain ⟨entry, parsed⟩ := either.resolve_left blank
      exact ⟨some entry, by rw [read_core blank, parsed]; rfl⟩
  · rintro ⟨outcome, readable⟩
    obtain ⟨text, rfl⟩ := text_of_read readable
    refine ⟨text, Text.decode_encode text, ?_⟩
    by_cases blank : Text.trim text.toList = []
    · exact .inl blank
    · right
      rw [read_core blank] at readable
      cases parsed : fromJson (String.ofList (Text.trim text.toList)) with
      | ok entry => exact ⟨entry, rfl⟩
      | error fault => simp [parsed, Except.mapError, Except.map] at readable

theorem faults_iff (number : Nat) (line : Bytes) (error : StorageError) :
    Faults number line error ↔
      ∃ flaw, read line = .error flaw ∧ Replay.lineError number flaw = error := by
  constructor
  · intro faults
    cases faults with
    | notText broken => exact ⟨.notText, by rw [read, broken], rfl⟩
    | @notRecord text fault decoded filled broken =>
      refine ⟨.notRecord fault, ?_, rfl⟩
      rw [← Text.encode_of_decode decoded, read_core filled, broken]
      rfl
  · rintro ⟨flaw, broken, rfl⟩
    cases decoded : Text.decode? line with
    | none =>
      rw [read, decoded] at broken
      cases broken
      exact .notText decoded
    | some text =>
      rw [← Text.encode_of_decode decoded] at broken
      by_cases blank : Text.trim text.toList = []
      · rw [read_blank blank] at broken
        cases broken
      · rw [read_core blank] at broken
        cases parsed : fromJson (String.ofList (Text.trim text.toList)) with
        | ok entry => simp [parsed, Except.mapError, Except.map] at broken
        | error fault =>
          rw [parsed] at broken
          cases broken
          exact .notRecord decoded blank parsed

end JournalLine

namespace Replay

theorem lines_stop {before after : List Bytes} {line : Bytes} {flaw : JournalLine.Flaw}
    (readable : ∀ earlier ∈ before, ∃ found, JournalLine.read earlier = .ok found)
    (broken : JournalLine.read line = .error flaw) (number : Nat) (index : Index) :
    (lines number index (before ++ line :: after)).outcome =
      .error (lineError (number + before.length) flaw) := by
  induction before generalizing number index with
  | nil => simp only [List.nil_append, lines, broken, List.length_nil, Nat.add_zero]
  | cons first before induction =>
    rw [List.forall_mem_cons] at readable
    obtain ⟨⟨found, read⟩, later⟩ := readable
    have count : number + (first :: before).length = number + 1 + before.length := by
      rw [List.length_cons]
      omega
    rw [count, List.cons_append]
    cases found with
    | none =>
      simp only [lines, read]
      exact induction later (number + 1) index
    | some written =>
      simp only [lines, read]
      exact induction later (number + 1) (apply index written).outcome

theorem lines_stopped {number : Nat} {index : Index} {all : List Bytes} {error : StorageError}
    (failed : (lines number index all).outcome = .error error) :
    ∃ before line after flaw, all = before ++ line :: after ∧
      (∀ earlier ∈ before, ∃ found, JournalLine.read earlier = .ok found) ∧
      JournalLine.read line = .error flaw := by
  induction all generalizing number index with
  | nil => cases failed
  | cons first all induction =>
    cases read : JournalLine.read first with
    | error flaw => exact ⟨[], first, all, flaw, rfl, by simp, read⟩
    | ok found =>
      have later : ∃ next, (lines (number + 1) next all).outcome = .error error := by
        cases found with
        | none =>
          simp only [lines, read] at failed
          exact ⟨index, failed⟩
        | some written =>
          simp only [lines, read] at failed
          exact ⟨_, failed⟩
      obtain ⟨next, behind⟩ := later
      obtain ⟨before, line, after, flaw, rfl, readable, broken⟩ := induction behind
      refine ⟨first :: before, line, after, flaw, rfl, ?_, broken⟩
      exact List.forall_mem_cons.2 ⟨⟨found, read⟩, readable⟩

/-- Both can be read, and they say the same, or neither can. -/
def Agree (first second : List Bytes) : Prop :=
  ∀ read, said first = .ok read ↔ said second = .ok read

variable {first second third : List Bytes} {line other : Bytes}

theorem agree_refl (lines : List Bytes) : Agree lines lines := fun _ => Iff.rfl

theorem agree_symm (agree : Agree first second) : Agree second first :=
  fun read => (agree read).symm

theorem agree_trans (one : Agree first second) (next : Agree second third) : Agree first third :=
  fun read => (one read).trans (next read)

theorem said_cons_iff {lines : List Bytes} {read : List JournalLine} :
    said (line :: lines) = .ok read ↔ ∃ found later, JournalLine.read line = .ok found ∧
      said lines = .ok later ∧ read = found.toList ++ later := by
  cases readable : JournalLine.read line with
  | error flaw => simp [said_cons_error readable]
  | ok found =>
    rw [said_cons_ok readable]
    cases said lines <;> simp [Except.map, eq_comm]

theorem readable_of_said {lines : List Bytes} {read : List JournalLine}
    (readable : said lines = .ok read) :
    ∀ line ∈ lines, ∃ found, JournalLine.read line = .ok found := by
  induction lines generalizing read with
  | nil => simp
  | cons first lines induction =>
    obtain ⟨found, later, one, behind, _⟩ := said_cons_iff.1 readable
    exact List.forall_mem_cons.2 ⟨⟨found, one⟩, induction behind⟩

theorem agree_cons (same : ∀ outcome, JournalLine.read line = .ok outcome ↔
    JournalLine.read other = .ok outcome) (agree : Agree first second) :
    Agree (line :: first) (other :: second) := by
  intro read
  simp only [said_cons_iff, same]
  constructor
  · rintro ⟨found, later, readable, behind, rfl⟩
    exact ⟨found, later, readable, (agree later).1 behind, rfl⟩
  · rintro ⟨found, later, readable, behind, rfl⟩
    exact ⟨found, later, readable, (agree later).2 behind, rfl⟩

theorem agree_behind (front : List Bytes) (agree : Agree first second) :
    Agree (front ++ first) (front ++ second) := by
  induction front with
  | nil => exact agree
  | cons line front induction => exact agree_cons (fun _ => Iff.rfl) induction

theorem agree_blank (blank : JournalLine.read line = .ok none) (lines : List Bytes) :
    Agree (line :: lines) lines := by
  intro read
  rw [said_cons_ok blank]
  cases said lines <;> simp [Except.map]

theorem agree_replay {log spaced : Bytes} (agree : Agree (splitLines log) (splitLines spaced))
    (index : Index) :
    (replay log).outcome = .ok index ↔ (replay spaced).outcome = .ok index := by
  rw [replay_ok_iff, replay_ok_iff]
  simp only [agree _]

theorem agree_first_line {line rest : Bytes} (alone : newline ∉ line) (ends : EndsLine rest) :
    Agree (splitLines (line ++ rest)) (line :: splitLines rest.tail) := by
  by_cases filled : line ++ rest = []
  · obtain ⟨rfl, rfl⟩ := List.append_eq_nil_iff.1 filled
    exact agree_symm (agree_blank JournalLine.read_nil [])
  · rw [Text.split_first_line alone ends filled]
    exact agree_refl _

theorem agree_pad_before {pad : String} (white : White pad) (rest : Bytes) :
    Agree (splitLines (Text.encode pad ++ rest)) (splitLines rest) := by
  obtain ⟨letters, rfl⟩ := pad.exists_eq_ofList
  rw [White, String.toList_ofList] at white
  induction letters with
  | nil => exact agree_refl _
  | cons c letters induction =>
    rw [List.forall_mem_cons] at white
    rw [Text.encode_cons, List.append_assoc]
    refine agree_trans ?_ (induction white.2)
    generalize Text.encode (String.ofList letters) ++ rest = behind
    by_cases ended : c = '\n'
    · rw [ended, Text.encode_newline, List.singleton_append, Text.split_newline_cons]
      exact agree_blank JournalLine.read_nil _
    · have letter : White (String.ofList [c]) := by simpa [White] using white.1
      obtain ⟨line, later, rfl, alone, ends⟩ := Text.first_line behind
      have joined : newline ∉ Text.encode (String.ofList [c]) ++ line := by
        rw [List.mem_append, not_or]
        exact ⟨Text.newline_not_mem_letter ended, alone⟩
      rw [← List.append_assoc]
      refine agree_trans (agree_first_line joined ends) ?_
      refine agree_trans ?_ (agree_symm (agree_first_line alone ends))
      exact agree_cons (JournalLine.read_behind_white letter line) (agree_refl _)

theorem agree_letter_after {c : Char} (white : Text.isBlank c = true) (front : Bytes)
    {rest : Bytes} (ends : EndsLine rest) :
    Agree (splitLines (front ++ (Text.encode (String.ofList [c]) ++ rest)))
      (splitLines (front ++ rest)) := by
  have letter : White (String.ofList [c]) := by simpa [White] using white
  obtain ⟨before, closed, spelled⟩ := Text.before_open_line front
  have alone := Text.open_line_whole front
  generalize Text.openLine front = last at spelled alone
  rw [spelled, List.append_assoc, List.append_assoc, Text.split_lines_append closed,
    Text.split_lines_append closed]
  apply agree_behind
  refine agree_trans ?_ (agree_symm (agree_first_line alone ends))
  by_cases ended : c = '\n'
  · rw [ended, Text.encode_newline, List.singleton_append, Text.split_lines_terminated alone]
    apply agree_cons (fun _ => Iff.rfl)
    rcases ends with rfl | ⟨later, rfl⟩
    · exact agree_refl _
    · rw [Text.split_newline_cons]
      exact agree_blank JournalLine.read_nil _
  · have joined : newline ∉ last ++ Text.encode (String.ofList [c]) := by
      rw [List.mem_append, not_or]
      exact ⟨alone, Text.newline_not_mem_letter ended⟩
    rw [← List.append_assoc]
    refine agree_trans (agree_first_line joined ends) ?_
    exact agree_cons (JournalLine.read_before_white letter last) (agree_refl _)

theorem agree_pad_after {pad : String} (white : White pad) (front : Bytes) {rest : Bytes}
    (ends : EndsLine rest) :
    Agree (splitLines (front ++ (Text.encode pad ++ rest))) (splitLines (front ++ rest)) := by
  obtain ⟨letters, rfl⟩ := pad.exists_eq_ofList
  rw [White, String.toList_ofList] at white
  induction letters generalizing front with
  | nil => exact agree_refl _
  | cons c letters induction =>
    rw [List.forall_mem_cons] at white
    have later := induction (front ++ Text.encode (String.ofList [c])) white.2
    rw [List.append_assoc, List.append_assoc] at later
    rw [Text.encode_cons, List.append_assoc]
    exact agree_trans later (agree_letter_after white.1 front ends)

/-- Nothing but white space stands between this place and the boundary of a line. -/
inductive Edge : Bytes → Bytes → Prop
  | begins {closed rest : Bytes} {pad : String} (boundary : Closed closed) (white : White pad) :
      Edge (closed ++ Text.encode pad) rest
  | ends {front rest : Bytes} {pad : String} (white : White pad) (boundary : EndsLine rest) :
      Edge front (Text.encode pad ++ rest)

/-- White space was put at edges of lines, time after time: blank lines, say, or a carriage return
before a newline. -/
inductive Respaced (log : Bytes) : Bytes → Prop
  | same : Respaced log log
  | put {front rest : Bytes} {pad : String} (earlier : Respaced log (front ++ rest))
      (edge : Edge front rest) (white : White pad) :
      Respaced log (front ++ (Text.encode pad ++ rest))

theorem agree_at_edge {front rest : Bytes} {pad : String} (edge : Edge front rest)
    (white : White pad) :
    Agree (splitLines (front ++ (Text.encode pad ++ rest))) (splitLines (front ++ rest)) := by
  have both : ∀ held : String, White held → White (held ++ pad) ∧ White (pad ++ held) := by
    intro held other
    simp only [White, String.toList_append, List.mem_append]
    exact ⟨fun c => Or.rec (other c) (white c), fun c => Or.rec (white c) (other c)⟩
  cases edge with
  | @begins closed _ held boundary known =>
    have longer := agree_pad_before (both held known).1 rest
    rw [Text.encode_append, List.append_assoc] at longer
    rw [List.append_assoc, List.append_assoc, Text.split_lines_append boundary,
      Text.split_lines_append boundary]
    apply agree_behind
    exact agree_trans longer (agree_symm (agree_pad_before known rest))
  | @ends _ later held known boundary =>
    have longer := agree_pad_after (both held known).2 front boundary
    rw [Text.encode_append, List.append_assoc] at longer
    exact agree_trans longer (agree_symm (agree_pad_after known front boundary))

theorem agree_respaced {log spaced : Bytes} (respaced : Respaced log spaced) :
    Agree (splitLines spaced) (splitLines log) := by
  induction respaced with
  | same => exact agree_refl _
  | put earlier edge white induction => exact agree_trans (agree_at_edge edge white) induction

end Replay

namespace Journal

/-- The first line of a log that is refused, and its error. -/
structure FirstFault (log front line rest : Bytes) (error : StorageError) : Prop where
  whole : log = front ++ (line ++ rest)
  boundary : Closed front
  alone : newline ∉ line
  ends : EndsLine rest
  before : ∀ earlier ∈ splitLines front, JournalLine.Acceptable earlier
  fault : JournalLine.Faults (front.count newline + 1) line error

variable {log front line rest : Bytes} {error : StorageError}

theorem replay_stops (first : FirstFault log front line rest error) :
    (replay log).outcome = .error error := by
  obtain ⟨flaw, broken, rfl⟩ := (JournalLine.faults_iff _ _ _).1 first.fault
  have filled : line ++ rest ≠ [] := by
    intro empty
    rw [(List.append_eq_nil_iff.1 empty).1, JournalLine.read_nil] at broken
    cases broken
  have readable : ∀ earlier ∈ splitLines front, ∃ found, JournalLine.read earlier = .ok found :=
    fun earlier held => (JournalLine.acceptable_iff earlier).1 (first.before earlier held)
  rw [replay, first.whole, Text.split_lines_append first.boundary,
    Text.split_first_line first.alone first.ends filled,
    Replay.lines_stop readable broken, Text.length_split_closed first.boundary, Nat.add_comm]

theorem first_fault_of_replay (failed : (replay log).outcome = .error error) :
    ∃ front line rest, FirstFault log front line rest error := by
  obtain ⟨before, line, after, flaw, split, readable, broken⟩ := Replay.lines_stopped failed
  obtain ⟨front, rest, whole, boundary, lines, alone, ends⟩ := Text.place_of_line split
  have first : FirstFault log front line rest
      (Replay.lineError (front.count newline + 1) flaw) := by
    refine ⟨whole, boundary, alone, ends, ?_, (JournalLine.faults_iff _ _ _).2 ⟨flaw, broken, rfl⟩⟩
    intro earlier held
    rw [lines] at held
    exact (JournalLine.acceptable_iff earlier).2 (readable earlier held)
  have told := replay_stops first
  rw [failed] at told
  rw [Except.error.inj told]
  exact ⟨front, line, rest, first⟩

theorem replayed_iff_acceptable (log : Bytes) :
    (∃ index, (replay log).outcome = .ok index) ↔
      ∀ line ∈ splitLines log, JournalLine.Acceptable line := by
  simp only [JournalLine.acceptable_iff]
  constructor
  · rintro ⟨index, replayed⟩
    obtain ⟨read, readable, _⟩ := Replay.replay_ok_iff.1 replayed
    exact Replay.readable_of_said readable
  · intro readable
    cases outcome : (replay log).outcome with
    | ok index => exact ⟨index, rfl⟩
    | error error =>
      obtain ⟨before, line, after, flaw, split, _, broken⟩ := Replay.lines_stopped outcome
      obtain ⟨found, taken⟩ := readable line (by rw [split]; simp)
      rw [broken] at taken
      cases taken

theorem opened_iff {path : String} {index : Index} :
    (ofLog path log).outcome = .ok ⟨log, index⟩ ↔ (replay log).outcome = .ok index := by
  rw [ofLog_outcome]
  cases (replay log).outcome <;> simp [Except.map]

theorem refused_iff {path : String} :
    (ofLog path log).outcome = .error error ↔ (replay log).outcome = .error error := by
  rw [ofLog_outcome]
  cases (replay log).outcome <;> simp [Except.map]

/-- A log can be opened if every line of it is acceptable. If not, the first that is none decides
the error, whatever comes behind it. White space at the edges of lines decides nothing. -/
theorem first_fault_decides (path : String) (log : Bytes) :
    ((∃ index, (ofLog path log).outcome = .ok ⟨log, index⟩) ↔
        ∀ line ∈ splitLines log, JournalLine.Acceptable line) ∧
      (∀ error, (ofLog path log).outcome = .error error ↔
        ∃ front line rest, FirstFault log front line rest error) ∧
      (∀ front line rest error, FirstFault log front line rest error →
        ∀ other, EndsLine other →
          (ofLog path (front ++ (line ++ other))).outcome = .error error) ∧
      ∀ spaced, Replay.Respaced log spaced → ∀ index,
        (ofLog path spaced).outcome = .ok ⟨spaced, index⟩ ↔
          (ofLog path log).outcome = .ok ⟨log, index⟩ := by
  simp only [opened_iff, refused_iff]
  refine ⟨replayed_iff_acceptable log, fun error => ?_, ?_, ?_⟩
  · exact ⟨first_fault_of_replay, fun ⟨front, line, rest, first⟩ => replay_stops first⟩
  · intro front line rest error first other ends
    have moved : FirstFault (front ++ (line ++ other)) front line other error :=
      { first with whole := rfl, ends := ends }
    exact replay_stops moved
  · intro spaced respaced index
    exact Replay.agree_replay (Replay.agree_respaced respaced) index

example : (replay (Text.encode "\n \t\n\x7b\n")).outcome =
    .error (.invalidData "log line 3: EOF while parsing an object") := by
  decide +kernel

end Journal

end ShortLinks
