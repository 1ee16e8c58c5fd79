import ShortLinks.Json.Skip

/-!
# Reading and writing flat records

A schema names a record and its members. A record is written as an object with
its members in the order of the schema. It is read from an object with the
members in any order and unknown members in between, or from the list of its
members in order. Reading goes through the text once, so that the first fault
in text order is the one reported.
-/

namespace ShortLinks.Json

set_option autoImplicit false

inductive Kind
  | text
  | flag
  | count
  deriving DecidableEq, Repr

inductive Scalar
  | text (value : String)
  | flag (value : Bool)
  | count (value : Nat)
  deriving DecidableEq, Repr

def Kind.expected : Kind → Expected
  | text => .text
  | flag => .flag
  | count => .count

/-- One member. A member with a fallback may be left out. -/
structure Field where
  name : String
  kind : Kind
  fallback : Option Scalar
  deriving DecidableEq, Repr

structure Schema where
  name : String
  fields : List Field
  deriving DecidableEq, Repr

abbrev Members := List (String × Scalar)

/-- The fault of a value that is not of the expected kind. The value's own
syntax comes first. -/
def mismatch (expected : Expected) (first : Char) (rest : List Char) : Fault :=
  let settled {α : Type} (outcome : Except Fault α) (found : α → Found) : Fault :=
    match outcome with
    | .error fault => fault
    | .ok value => .wrongType (found value) expected
  if first = 'n' then settled (readWord ['u', 'l', 'l'] rest) fun _ => .null
  else if first = 't' then settled (readWord ['r', 'u', 'e'] rest) fun _ => .boolean true
  else if first = 'f' then
    settled (readWord ['a', 'l', 's', 'e'] rest) fun _ => .boolean false
  else if first = '-' then settled (readNumber true rest) fun read => read.1.found
  else if first.isDigit then
    settled (readNumber false (first :: rest)) fun read => read.1.found
  else if first = '"' then
    settled (readString .plain rest) fun read => .text (String.ofList read.1)
  else if first = '[' then .wrongType .sequence expected
  else if first = '\x7b' then .wrongType .map expected
  else .expectedValue

def countOf (read : Number × List Char) : Except Fault (Scalar × List Char) :=
  match read.1 with
  | .natural value => .ok (.count value, read.2)
  | .negative magnitude => .error (.wrongValue (.integer (-(magnitude : Int))) .count)
  | .floating => .error (.wrongType .floating .count)

/-- A value of one kind behind its first character. -/
def readScalarFrom (kind : Kind) (first : Char) (rest : List Char) :
    Except Fault (Scalar × List Char) :=
  match kind with
  | .text =>
      if first = '"' then
        (readString .plain rest).map fun (value, behind) =>
          (.text (String.ofList value), behind)
      else .error (mismatch .text first rest)
  | .flag =>
      if first = 't' then
        (readWord ['r', 'u', 'e'] rest).map fun behind => (.flag true, behind)
      else if first = 'f' then
        (readWord ['a', 'l', 's', 'e'] rest).map fun behind => (.flag false, behind)
      else .error (mismatch .flag first rest)
  | .count =>
      if first = '-' then (readNumber true rest).bind countOf
      else if first.isDigit then (readNumber false (first :: rest)).bind countOf
      else .error (mismatch .count first rest)

def readScalar (kind : Kind) (text : List Char) : Except Fault (Scalar × List Char) :=
  match skipSpace text with
  | [] => .error .endInValue
  | first :: rest => readScalarFrom kind first rest

def readColon (text : List Char) : Except Fault (List Char) :=
  match skipSpace text with
  | [] => .error .endInObject
  | ':' :: rest => .ok rest
  | _ => .error .expectedColon

/-- A member behind the quote that opens its name. Unknown members add nothing. -/
def readMember (schema : Schema) (known : Members) (text : List Char) :
    Except Fault (Members × List Char) := do
  let (letters, behindName) ← readString .plain text
  let name := String.ofList letters
  match schema.fields.find? fun field => field.name == name with
  | some field =>
      if (known.lookup name).isSome then throw (.duplicateField name)
      let behindColon ← readColon behindName
      let (value, behind) ← readScalar field.kind behindColon
      return (known ++ [(name, value)], behind)
  | none =>
      let behindColon ← readColon behindName
      let behind ← skipValue behindColon
      return (known, behind)

/-- Where the members of an object are: the quote that opens the next name was
passed, or the closing brace was. -/
inductive MemberMark
  | member (rest : List Char)
  | closed (rest : List Char)
  deriving DecidableEq, Repr

def nextMember (isFirst : Bool) (text : List Char) : Except Fault MemberMark :=
  match skipSpace text with
  | [] => .error .endInObject
  | c :: rest =>
      if c = '\x7d' then .ok (.closed rest)
      else if isFirst then
        if c = '"' then .ok (.member rest) else .error .keyMustBeText
      else if c ≠ ',' then .error .expectedObjectComma
      else
        match skipSpace rest with
        | [] => .error .endInValue
        | '"' :: behind => .ok (.member behind)
        | '\x7d' :: _ => .error .trailingComma
        | _ => .error .keyMustBeText

/-- The members of an object up to its closing brace. Every member takes
characters, which bounds their number. -/
def readMembers (schema : Schema) :
    Nat → Bool → Members → List Char → Except Fault (Members × List Char)
  | 0, _, _, _ => .error .endInObject
  | fuel + 1, isFirst, known, text =>
      match nextMember isFirst text with
      | .error fault => .error fault
      | .ok (.closed rest) => .ok (known, rest)
      | .ok (.member rest) =>
          match readMember schema known rest with
          | .error fault => .error fault
          | .ok (members, behind) => readMembers schema fuel false members behind

/-- Members that were left out take their fallback; the first that has none is
missing. -/
def complete (known : Members) : List Field → Except Fault Members
  | [] => .ok []
  | field :: fields =>
      match (known.lookup field.name).or field.fallback with
      | none => .error (.missingField field.name)
      | some value => (complete known fields).map fun members =>
          (field.name, value) :: members

/-- Whether a list has another item: the text of the item, or the closing
bracket with what follows. -/
inductive ItemMark
  | item (rest : List Char)
  | closed
  deriving DecidableEq, Repr

def nextItem (isFirst : Bool) (text : List Char) : Except Fault ItemMark :=
  match skipSpace text with
  | [] => .error .endInList
  | c :: rest =>
      if c = ']' then .ok .closed
      else if isFirst then .ok (.item (c :: rest))
      else if c ≠ ',' then .error .expectedListComma
      else
        match skipSpace rest with
        | [] => .error .endInValue
        | ']' :: _ => .error .trailingComma
        | behind => .ok (.item behind)

/-- The items of a list, one for each field in order. -/
def readItems (schema : Schema) :
    List Field → Nat → List Char → Except Fault (Members × List Char)
  | [], _, text => .ok ([], text)
  | field :: fields, position, text =>
      match nextItem (position == 0) text with
      | .error fault => .error fault
      | .ok (.item rest) =>
          match readScalar field.kind rest with
          | .error fault => .error fault
          | .ok (value, behind) =>
              (readItems schema fields (position + 1) behind).map fun (members, last) =>
                ((field.name, value) :: members, last)
      | .ok .closed =>
          match field.fallback with
          | none => .error (.wrongLength position schema.name schema.fields.length)
          | some value =>
              (readItems schema fields (position + 1) text).map fun (members, last) =>
                ((field.name, value) :: members, last)

def closeList (text : List Char) : Except Fault (List Char) :=
  match skipSpace text with
  | [] => .error .endInList
  | ']' :: rest => .ok rest
  | ',' :: rest =>
      match skipSpace rest with
      | ']' :: _ => .error .trailingComma
      | _ => .error .trailingText
  | _ => .error .trailingText

def readRecord (schema : Schema) (text : List Char) :
    Except Fault (Members × List Char) :=
  match skipSpace text with
  | [] => .error .endInValue
  | '[' :: rest => do
      let (members, behind) ← readItems schema schema.fields 0 rest
      let last ← closeList behind
      return (members, last)
  | '\x7b' :: rest => do
      let (known, behind) ← readMembers schema (rest.length + 1) true [] rest
      let members ← complete known schema.fields
      return (members, behind)
  | first :: rest => .error (mismatch (.object schema.name) first rest)

/-- Only white space may follow a document. -/
def finish {α : Type} (read : α × List Char) : Except Fault α :=
  if (skipSpace read.2).isEmpty then .ok read.1 else .error .trailingText

def decodeRecord (schema : Schema) (text : String) : Except Fault Members :=
  (readRecord schema text.toList).bind finish

def decodeText (text : String) : Except Fault String :=
  (readScalar .text text.toList).bind fun read =>
    match read.1 with
    | .text value => finish (value, read.2)
    | _ => .error .expectedValue

def writeScalar : Scalar → List Char
  | .text value => writeString value
  | .flag true => "true".toList
  | .flag false => "false".toList
  | .count value => Nat.toDigits 10 value

def writeMember (member : String × Scalar) : List Char :=
  writeString member.1 ++ ':' :: writeScalar member.2

def joined (separator : List Char) : List (List Char) → List Char
  | [] => []
  | [part] => part
  | part :: parts => part ++ separator ++ joined separator parts

def writeMembers (members : Members) : List Char :=
  '\x7b' :: joined [','] (members.map writeMember) ++ ['\x7d']

def indented (depth : Nat) (text : List Char) : List Char :=
  List.replicate (2 * depth) ' ' ++ text

def layOutMembers (depth : Nat) (members : Members) : List Char :=
  match members with
  | [] => ['\x7b', '\x7d']
  | _ =>
      let line (member : String × Scalar) :=
        indented (depth + 1) (writeString member.1 ++ [':', ' '] ++ writeScalar member.2)
      ['\x7b', '\n'] ++ joined [',', '\n'] (members.map line) ++
        '\n' :: indented depth ['\x7d']

def layOutList (objects : List Members) : List Char :=
  match objects with
  | [] => ['[', ']']
  | _ =>
      ['[', '\n'] ++
        joined [',', '\n'] (objects.map fun members => indented 1 (layOutMembers 1 members)) ++
        ['\n', ']']

end ShortLinks.Json
