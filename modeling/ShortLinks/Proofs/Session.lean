import ShortLinks.Backend

/-!
# Sessions

A list of calls put to a store one after the other, with the answers collected. The store
may be the ledger, a backend, or anything else that answers calls.
-/

namespace ShortLinks

set_option autoImplicit false

/-- A call, whatever the type of its answer. -/
structure Ask where
  {α : Type}
  call : StoreCall α

structure Reply where
  {α : Type}
  answer : Except StorageError α

/-- Whether a call concerns the records only, not the connection to them. -/
def Ask.aboutRecords (ask : Ask) : Bool :=
  match ask.call.method with
  | .probe | .shutdown => false
  | _ => true

def Reply.succeeded (reply : Reply) : Bool := reply.answer.isOk

/-- Puts the calls one after the other, and collects the answers. -/
def session {σ : Type} (perform : {α : Type} → σ → StoreCall α → Except StorageError α × σ) :
    List Ask → σ → List Reply × σ
  | [], state => ([], state)
  | ask :: asks, state =>
      let (answer, next) := perform state ask.call
      let (replies, last) := session perform asks next
      (⟨answer⟩ :: replies, last)

namespace Ledger

def session (ledger : Ledger) (policy : BatchPolicy) (asks : List Ask) : List Reply × Ledger :=
  ShortLinks.session (fun current call => current.perform policy call) asks ledger

theorem session_cons (ledger : Ledger) (policy : BatchPolicy) (ask : Ask) (asks : List Ask) :
    ledger.session policy (ask :: asks) =
      (⟨(ledger.perform policy ask.call).1⟩ ::
          ((ledger.perform policy ask.call).2.session policy asks).1,
        ((ledger.perform policy ask.call).2.session policy asks).2) := rfl

end Ledger

namespace Backend

def session (backend : Backend) (disk : Disk) (asks : List Ask) : List Reply × Backend :=
  ShortLinks.session
    (fun current call =>
      let answered := current.perform disk call
      (answered.answer, answered.backend))
    asks backend

theorem session_cons (backend : Backend) (disk : Disk) (ask : Ask) (asks : List Ask) :
    backend.session disk (ask :: asks) =
      (⟨(backend.perform disk ask.call).answer⟩ ::
          ((backend.perform disk ask.call).backend.session disk asks).1,
        ((backend.perform disk ask.call).backend.session disk asks).2) := rfl

theorem session_length (disk : Disk) (backend : Backend) (asks : List Ask) :
    (backend.session disk asks).1.length = asks.length := by
  induction asks generalizing backend with
  | nil => rfl
  | cons ask asks ih => rw [session_cons, List.length_cons, List.length_cons, ih]

theorem session_append (disk : Disk) (backend : Backend) (asks more : List Ask) :
    backend.session disk (asks ++ more) =
      ((backend.session disk asks).1 ++ ((backend.session disk asks).2.session disk more).1,
        ((backend.session disk asks).2.session disk more).2) := by
  induction asks generalizing backend with
  | nil => rfl
  | cons ask asks ih =>
    rw [List.cons_append, session_cons, session_cons, ih]
    rfl

end Backend

end ShortLinks
