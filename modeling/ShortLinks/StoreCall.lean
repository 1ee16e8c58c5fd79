import ShortLinks.Record
import ShortLinks.StorageError

/-!
# Store calls

The calls that every backend answers. A request to the service is a dialogue
with a store: it asks one call after the other, and anything may happen to the
store in between.
-/

namespace ShortLinks

set_option autoImplicit false

/-- A call, by the type of its answer. -/
inductive StoreCall : Type → Type
  | put (code : ShortCode) (url owner : String) : StoreCall Unit
  | putBatch (entries : List BatchEntry) (owner : String) : StoreCall Unit
  | markDeleted (codes : List ShortCode) (owner : String) : StoreCall Unit
  | get (code : ShortCode) : StoreCall (Option String)
  | findUrl (url : String) : StoreCall (Option ShortCode)
  | listByOwner (owner : String) : StoreCall (List LinkRecord)
  | stats : StoreCall StoreStats
  | probe (deadline : Nat) (busy : Bool) : StoreCall Unit
  | shutdown : StoreCall Unit

inductive StoreMethod
  | put
  | putBatch
  | markDeleted
  | get
  | findUrl
  | listByOwner
  | stats
  | probe
  | shutdown
  deriving DecidableEq, Repr

def StoreCall.method {α : Type} : StoreCall α → StoreMethod
  | put _ _ _ => .put
  | putBatch _ _ => .putBatch
  | markDeleted _ _ => .markDeleted
  | get _ => .get
  | findUrl _ => .findUrl
  | listByOwner _ => .listByOwner
  | stats => .stats
  | probe _ _ => .probe
  | shutdown => .shutdown

/-- A request as the calls it makes, each depending on the answers before it. -/
inductive Dialogue (α : Type) : Type 1
  | done (answer : α)
  | ask {β : Type} (call : StoreCall β) (next : Except StorageError β → Dialogue α)

namespace Dialogue

def run {α σ : Type} (answer : {β : Type} → StoreCall β → σ → Except StorageError β × σ) :
    Dialogue α → σ → α × σ
  | done result, state => (result, state)
  | ask call next, state =>
      let (reply, behind) := answer call state
      run answer (next reply) behind

end Dialogue

end ShortLinks
