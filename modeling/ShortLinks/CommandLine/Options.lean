/-!
# Options

Reading the words of a command line. An option has a long name, perhaps a letter,
and always a value, which follows in the same word or in the next one. A value in
the next word must not look like an option. No option is given twice. Behind a
double dash everything is a plain word.
-/

namespace ShortLinks.CommandLine

set_option autoImplicit false

inductive Setting
  | filePath
  | dsn
  | baseUrl
  | logLevel
  | logFormat
  | workers
  | user
  deriving DecidableEq, Repr

/-- Why a command line is not carried out: it is wrong, or it only asks for help. -/
inductive Refusal
  | usage
  | help
  deriving DecidableEq, Repr

namespace Setting

def all : List Setting := [filePath, dsn, baseUrl, logLevel, logFormat, workers, user]

def longName : Setting → String
  | filePath => "file-storage-path"
  | dsn => "database-dsn"
  | baseUrl => "base-url"
  | logLevel => "log-level"
  | logFormat => "log-format"
  | workers => "delete-workers"
  | user => "user"

def letter? : Setting → Option Char
  | filePath => some 'f'
  | dsn => some 'd'
  | baseUrl => some 'b'
  | logLevel => some 'l'
  | user => some 'u'
  | logFormat | workers => none

def environmentName? : Setting → Option String
  | filePath => some "FILE_STORAGE_PATH"
  | dsn => some "DATABASE_DSN"
  | baseUrl => some "BASE_URL"
  | logLevel => some "LOG_LEVEL"
  | logFormat => some "SNIP_LOG_FORMAT"
  | workers => some "SNIP_DELETE_WORKERS"
  | user => none

end Setting

inductive Shape
  | plain
  | terminator
  | long (name : List Char) (value : Option (List Char))
  | letters (first : Char) (rest : List Char)
  deriving DecidableEq, Repr

def shapeOf (word : String) : Shape :=
  match word.toList with
  | ['-', '-'] => .terminator
  | '-' :: '-' :: rest =>
      let name := rest.takeWhile (· != '=')
      match rest.dropWhile (· != '=') with
      | [] => .long name none
      | _ :: value => .long name (some value)
  | '-' :: first :: rest => .letters first rest
  | _ => .plain

inductive Asked
  | given (setting : Setting) (value : String)
  | awaited (setting : Setting)
  | refused (why : Refusal)
  deriving DecidableEq, Repr

def askedLong (known : List Setting) (name : List Char) (value : Option (List Char)) : Asked :=
  let spelled := String.ofList name
  match known.find? fun setting => setting.longName == spelled with
  | some setting =>
      match value with
      | some text => .given setting (String.ofList text)
      | none => .awaited setting
  | none => .refused (if spelled = "help" && value.isNone then .help else .usage)

def askedLetters (known : List Setting) (first : Char) (rest : List Char) : Asked :=
  match known.find? fun setting => setting.letter? == some first with
  | some setting =>
      match rest with
      | [] => .awaited setting
      | '=' :: value => .given setting (String.ofList value)
      | value => .given setting (String.ofList value)
  | none => .refused (if first = 'h' then .help else .usage)

/-- What has been read of a command line: options with their values, and words. -/
structure Scanned where
  given : List (Setting × String)
  words : List String
  deriving DecidableEq, Repr

namespace Scanned

def nothing : Scanned := ⟨[], []⟩

def give (scanned : Scanned) (setting : Setting) (value : String) :
    Except Refusal Scanned :=
  if scanned.given.any fun earlier => earlier.1 == setting then .error .usage
  else .ok { scanned with given := scanned.given ++ [(setting, value)] }

def value? (scanned : Scanned) (setting : Setting) : Option String :=
  scanned.given.lookup setting

def addWords (limit : Option Nat) (scanned : Scanned) (words : List String) :
    Except Refusal Scanned :=
  let all := scanned.words ++ words
  match limit with
  | some most => if most < all.length then .error .usage else .ok { scanned with words := all }
  | none => .ok { scanned with words := all }

end Scanned

/-- Reads options up to the first plain word. That word and all behind it are the
words that are left. -/
def scanLeading (known : List Setting) : List String → Scanned → Except Refusal Scanned
  | [], scanned => .ok scanned
  | word :: later, scanned =>
      let go (asked : Asked) : Except Refusal Scanned :=
        match asked with
        | .refused why => .error why
        | .given setting value => do scanLeading known later (← scanned.give setting value)
        | .awaited setting =>
            match later with
            | [] => .error .usage
            | value :: rest =>
                if shapeOf value = .plain then do
                  scanLeading known rest (← scanned.give setting value)
                else .error .usage
      match shapeOf word with
      | .plain => .ok { scanned with words := word :: later }
      | .terminator => .error .usage
      | .long name value => go (askedLong known name value)
      | .letters first rest => go (askedLetters known first rest)

/-- Reads options and plain words in any order, at most so many words in all. -/
def scanAll (known : List Setting) (limit : Option Nat) :
    List String → Scanned → Except Refusal Scanned
  | [], scanned => .ok scanned
  | word :: later, scanned =>
      let go (asked : Asked) : Except Refusal Scanned :=
        match asked with
        | .refused why => .error why
        | .given setting value => do scanAll known limit later (← scanned.give setting value)
        | .awaited setting =>
            match later with
            | [] => .error .usage
            | value :: rest =>
                if shapeOf value = .plain then do
                  scanAll known limit rest (← scanned.give setting value)
                else .error .usage
      match shapeOf word with
      | .plain => do scanAll known limit later (← scanned.addWords limit [word])
      | .terminator => scanned.addWords limit later
      | .long name value => go (askedLong known name value)
      | .letters first rest => go (askedLetters known first rest)

end ShortLinks.CommandLine
