import ShortLinks.Text.Blank

/-!
# Log filters

A log level is a list of directives with commas between them. A directive names a
level, or a target, a span with fields, and a level for them. Only whether a filter
can be read matters here.
-/

namespace ShortLinks.CommandLine

set_option autoImplicit false

inductive Reading
  | start
  | levelOrTarget
  | span
  | field (isEmpty : Bool)
  | fields
  | target
  | level (position : Nat)
  deriving DecidableEq, Repr

namespace Reading

def isOpening (c : Char) : Bool :=
  c.isAlphanum || c == '-' || c == ':' || c == '_' || 128 ≤ c.toNat

/-- Reads the character at a position. -/
def step (reading : Reading) (position : Nat) (c : Char) : Option Reading :=
  match reading with
  | start => if c = '[' then some .span else if isOpening c then some .levelOrTarget else none
  | levelOrTarget =>
      if c = '=' then some (.level (position + 1))
      else if c = '[' then some .span
      else some .levelOrTarget
  | span =>
      if c = ']' then some .target
      else if c = '\x7b' then some (.field true)
      else some .span
  | field isEmpty =>
      if c = '\x7d' then (if isEmpty then none else some .fields) else some (.field false)
  | fields => if c = ']' then some .target else none
  | target => if c = '=' then some (.level (position + 1)) else none
  | level begin => some (.level begin)

def readFrom : Reading → Nat → List Char → Option Reading
  | reading, _, [] => some reading
  | reading, position, c :: rest =>
      match reading.step position c with
      | none => none
      | some next => readFrom next (position + 1) rest

end Reading

def levelNames : List String := ["error", "warn", "info", "debug", "trace", "off"]

/-- Whether a text names a level, by its name in any case or by its number. -/
def isLevel (text : List Char) : Bool :=
  let digits :=
    match text with
    | '+' :: rest => rest
    | _ => text
  let number := digits.foldl (fun sum digit => sum * 10 + (digit.toNat - '0'.toNat)) 0
  text.isEmpty || levelNames.contains (String.ofList (text.map Char.toLower)) ||
    (!digits.isEmpty && digits.all Char.isDigit && number ≤ 5)

/-- Whether a directive can be read. White space around it is passed over, but
counts where the level is looked up. -/
def isDirective (directive : List Char) : Bool :=
  match Reading.readFrom .start 0 (Text.trim directive) with
  | some .levelOrTarget | some .target => true
  | some (.level position) => isLevel (directive.drop position)
  | _ => false

def directivesOf : List Char → List (List Char)
  | [] => []
  | c :: rest =>
      if c = ',' then directivesOf rest
      else
        match rest, directivesOf rest with
        | [], _ => [[c]]
        | ',' :: _, later => [c] :: later
        | _, [] => [[c]]
        | _, directive :: later => (c :: directive) :: later

def isFilter (text : String) : Bool := (directivesOf text.toList).all isDirective

end ShortLinks.CommandLine
