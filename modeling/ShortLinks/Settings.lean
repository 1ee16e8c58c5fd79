/-!
# Settings

Where records are kept, and how the service runs. Everything has a default.
-/

namespace ShortLinks

set_option autoImplicit false

inductive StorageChoice
  | memory
  | file (path : String)
  | database (dsn : String)
  deriving DecidableEq, Repr

/-- The label of a choice. It leaves out the connection string, which may hold
credentials. -/
def StorageChoice.name : StorageChoice → String
  | memory => "memory"
  | file _ => "file"
  | database _ => "database"

structure StorageSettings where
  filePath : Option String
  dsn : Option String
  deriving DecidableEq, Repr

namespace StorageSettings

def given (setting : Option String) : Option String :=
  setting.filter fun text => !text.isEmpty

/-- A connection string wins over a file path; empty settings count as unset. -/
def choice (settings : StorageSettings) : StorageChoice :=
  match given settings.dsn, given settings.filePath with
  | some dsn, _ => .database dsn
  | none, some path => .file path
  | none, none => .memory

end StorageSettings

def defaultWorkers : Nat := 10

def defaultQueueCapacity : Nat := 1024

def defaultBaseUrl : String := "http://localhost:8080/"

/-- In milliseconds. -/
def defaultHealthTimeout : Nat := 1000

structure DeletionSettings where
  workers : Nat
  queueCapacity : Nat
  deriving DecidableEq, Repr

structure ServiceSettings where
  baseUrl : String
  deletion : DeletionSettings
  healthTimeout : Nat
  deriving DecidableEq, Repr

def DeletionSettings.of (workers queueCapacity : Option Nat) : DeletionSettings where
  workers := workers.getD defaultWorkers
  queueCapacity := queueCapacity.getD defaultQueueCapacity

def ServiceSettings.of (baseUrl : Option String) (deletion : DeletionSettings)
    (healthTimeout : Option Nat) : ServiceSettings where
  baseUrl := baseUrl.getD defaultBaseUrl
  deletion := deletion
  healthTimeout := healthTimeout.getD defaultHealthTimeout

end ShortLinks
