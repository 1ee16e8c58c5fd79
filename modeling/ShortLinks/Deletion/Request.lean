import ShortLinks.Notice

/-!
# Deletion requests

A request asks for the tombstones of one owner's codes. It is numbered when the
call that brings it begins. Everything that happens to a request is an event, and
some events are noticed.
-/

namespace ShortLinks.Deletion

set_option autoImplicit false

structure Request where
  owner : String
  codes : List ShortCode
  deriving DecidableEq, Repr

/-- A request under its number. Numbers grow in the order in which the calls
began. -/
structure Entry where
  ticket : Nat
  request : Request
  deriving DecidableEq, Repr

/-- How applying a request ended. A panic ends its worker too. -/
inductive Outcome
  | applied
  | failed (cause : StorageError)
  | panicked
  deriving DecidableEq, Repr

/-- The two ways to close: stopping leaves what is queued, draining applies it. -/
inductive Closing
  | stop
  | drain
  deriving DecidableEq, Repr

inductive Event
  | asked (entry : Entry)
  | accepted (entry : Entry)
  | refused (entry : Entry)
  | began (worker : Nat) (entry : Entry)
  | ended (worker : Nat) (entry : Entry) (outcome : Outcome)
  | closing (closer : Nat) (kind : Closing)
  | joined (closer worker : Nat) (crashed : Bool)
  | discarded (closer : Nat) (entries : List Entry)
  | closed (closer : Nat) (kind : Closing)
  deriving DecidableEq, Repr

def Event.notices : Event → List Notice
  | ended _ entry (.failed cause) =>
      [.requestFailed entry.request.owner entry.request.codes.length cause]
  | joined _ _ true => [.workerPanicked]
  | discarded _ [] => []
  | discarded _ entries => [.requestsDiscarded entries.length]
  | closed _ .stop => [.pipelineStopped]
  | closed _ .drain => [.pipelineDrained]
  | _ => []

end ShortLinks.Deletion
