import ShortLinks.Code.Supply
import ShortLinks.Deletion.Pipeline
import ShortLinks.ServiceError
import ShortLinks.StoreCall
import ShortLinks.Text.Quoted

/-!
# The service

What is asked of the service, as dialogues with a store. A code is drawn before
the store is asked and is gone whatever the store answers. A code that is already
taken is reported, not drawn anew. A URL that is already stored answers the link
it has, deleted or not.
-/

namespace ShortLinks

set_option autoImplicit false

inductive Shortened
  | created (link : String)
  | existing (link : String)
  deriving DecidableEq, Repr

namespace Shortened

def link : Shortened → String
  | created link | existing link => link

def isExisting : Shortened → Bool
  | created _ => false
  | existing _ => true

end Shortened

/-- A request to the service: the calls it makes, and its answer. -/
abbrev Inquiry (α : Type) := Dialogue (Except ServiceError α)

namespace Inquiry

def ofCall {α β : Type} (call : StoreCall α) (read : α → β) : Inquiry β :=
  .ask call fun answer => .done ((answer.map read).mapError .ofStorage)

/-- Stores a URL under a code. If the URL is already stored, its code is looked
up; it may be missing then only if the store contradicts itself. -/
def shorten (baseUrl : String) (code : ShortCode) (url owner : String) : Inquiry Shortened :=
  .ask (.put code url owner) fun
    | .ok _ => .done (.ok (.created (code.linkUnder baseUrl)))
    | .error (.conflict _) =>
        .ask (.findUrl url) fun
          | .ok (some known) => .done (.ok (.existing (known.linkUnder baseUrl)))
          | .ok none => .done (.error (.inconsistent url))
          | .error cause => .done (.error (.ofStorage cause))
    | .error cause => .done (.error (.ofStorage cause))

/-- Stores a batch, each item under its code. The answers are in item order. -/
def shortenBatch (baseUrl : String) (codes : List ShortCode) (items : List BatchItem)
    (owner : String) : Inquiry (List BatchLink) :=
  match items with
  | [] => .done (.ok [])
  | _ :: _ =>
      let entries := codes.zipWith (fun code item => ⟨code, item.url⟩) items
      let links := codes.zipWith (fun code item => ⟨item.correlation, code.linkUnder baseUrl⟩) items
      ofCall (.putBatch entries owner) fun _ => links

def resolve (code : ShortCode) : Inquiry (Option String) := ofCall (.get code) id

def userUrls (baseUrl owner : String) : Inquiry (List OwnedLink) :=
  ofCall (.listByOwner owner) fun records =>
    records.map fun record => ⟨record.code.linkUnder baseUrl, record.url⟩

def ping (deadline : Nat) (busy : Bool) : Inquiry Unit := ofCall (.probe deadline busy) id

def stats : Inquiry StoreStats := ofCall .stats id

/-- What closing the service asks of the store once the pipeline is closed. -/
def closeStore : Inquiry Unit := ofCall .shutdown id

end Inquiry

structure Shortener where
  codes : CodeSupply
  baseUrl : String
  healthTimeout : Nat
  deriving DecidableEq, Repr

namespace Shortener

def shorten (shortener : Shortener) (url owner : String) : Inquiry Shortened × Shortener :=
  let (code, codes) := shortener.codes.draw
  (.shorten shortener.baseUrl code url owner, { shortener with codes })

def shortenBatch (shortener : Shortener) (items : List BatchItem) (owner : String) :
    Inquiry (List BatchLink) × Shortener :=
  let (drawn, codes) := shortener.codes.drawMany items.length
  (.shortenBatch shortener.baseUrl drawn items owner, { shortener with codes })

def describe (shortener : Shortener) (pipeline : Deletion.Pipeline) : String :=
  "ShortenerService \x7b base_url: " ++ Text.quoted shortener.baseUrl ++ ", deletions: " ++
    pipeline.describe ++ ", .. \x7d"

end Shortener

end ShortLinks
