import ShortLinks.CommandLine.Options
import ShortLinks.Code
import ShortLinks.Settings

/-!
# Invocations

What a command line and its environment ask for: a command, on whose behalf, and
with which settings. A given option wins over its environment variable, and that
wins over the default.
-/

namespace ShortLinks.CommandLine

set_option autoImplicit false

inductive Command
  | shorten (url : String)
  | batch (urls : List String)
  | resolve (code : ShortCode)
  | list
  | delete (codes : List ShortCode)
  | ping
  | stats
  deriving DecidableEq, Repr

inductive LogFormat
  | text
  | json
  deriving DecidableEq, Repr

structure Invocation where
  storage : StorageSettings
  service : ServiceSettings
  logLevel : String
  logFormat : LogFormat
  user : String
  command : Command
  deriving DecidableEq, Repr

/-- The names of the commands, and how many words each takes at most. -/
def commandNames : List (String × Option Nat) :=
  [("shorten", some 1), ("batch", none), ("resolve", some 1), ("list", some 0),
    ("delete", none), ("ping", some 0), ("stats", some 0)]

def Command.ofWords? (name : String) (words : List String) : Option Command :=
  match name, words with
  | "shorten", [url] => some (.shorten url)
  | "batch", url :: urls => some (.batch (url :: urls))
  | "resolve", [code] => some (.resolve ⟨code⟩)
  | "list", [] => some .list
  | "delete", code :: codes => some (.delete ((code :: codes).map ShortCode.mk))
  | "ping", [] => some .ping
  | "stats", [] => some .stats
  | _, _ => none

/-- What stands behind the word that asks for help: at most the name of a command. -/
def refuseHelp (words : List String) : Refusal :=
  match words with
  | [] => .help
  | [name] =>
      if name = "help" || (commandNames.lookup name).isSome then .help else .usage
  | _ => .usage

/-- A number that fits into a 64-bit word, with or without a plus sign. -/
def countOf? (text : String) : Option Nat :=
  let digits :=
    match text.toList with
    | '+' :: rest => rest
    | other => other
  if digits.isEmpty || !digits.all Char.isDigit then none
  else
    let count := digits.foldl (fun sum digit => sum * 10 + (digit.toNat - '0'.toNat)) 0
    if count < UInt64.size then some count else none

def LogFormat.ofName? : String → Option LogFormat
  | "text" => some .text
  | "json" => some .json
  | _ => none

def readSetting {α : Type} (value : Option String) (read : String → Option α) :
    Except Refusal (Option α) :=
  match value with
  | none => .ok none
  | some text =>
      match read text with
      | some found => .ok (some found)
      | none => .error .usage

def nonempty (text : String) : Option String := if text.isEmpty then none else some text

def defaultLogLevel : String := "info"

namespace Invocation

def settle (value : Setting → Option String) (user : String) (command : Command) :
    Except Refusal Invocation := do
  let filePath ← readSetting (value .filePath) nonempty
  let logFormat ← readSetting (value .logFormat) LogFormat.ofName?
  let workers ← readSetting (value .workers) countOf?
  return {
    storage := ⟨filePath, value .dsn⟩
    service := .of (value .baseUrl) (.of workers none) none
    logLevel := (value .logLevel).getD defaultLogLevel
    logFormat := logFormat.getD .text
    user
    command }

/-- Reads a command line in an environment. Only the user may be given behind the
command, and the user given there wins. -/
def parse (environment : List (String × String)) (arguments : List String) :
    Except Refusal Invocation := do
  let leading ← scanLeading Setting.all arguments .nothing
  match leading.words with
  | [] => throw .usage
  | name :: words =>
      if name = "help" then throw (refuseHelp words)
      match commandNames.lookup name with
      | none => throw .usage
      | some limit =>
          let behind ← scanAll [.user] limit words .nothing
          match Command.ofWords? name behind.words with
          | none => throw .usage
          | some command =>
              let value (setting : Setting) : Option String :=
                (leading.value? setting).orElse fun _ =>
                  setting.environmentName?.bind fun name => environment.lookup name
              let user := (behind.value? .user).orElse fun _ => leading.value? .user
              settle value (user.getD "") command

end Invocation

end ShortLinks.CommandLine
