import ShortLinks.Keyed
import ShortLinks.Record
import ShortLinks.StorageError

/-!
# The index

Three tables that answer every question about the stored records: what a code
stands for, which code a URL has, and which codes an owner created, in order.
They change together. The index is the whole of a store kept in memory, and the
fast half of a store kept in a journal.
-/

namespace ShortLinks

set_option autoImplicit false

structure IndexEntry where
  url : String
  owner : String
  deleted : Bool
  deriving DecidableEq, Repr

structure Index where
  byCode : Keyed ShortCode IndexEntry
  byUrl : Keyed String ShortCode
  byOwner : Keyed String (List ShortCode)
  deriving DecidableEq, Repr

namespace Index

def empty : Index := ⟨Keyed.empty, Keyed.empty, Keyed.empty⟩

def get (index : Index) (code : ShortCode) : Except StorageError (Option String) :=
  match index.byCode.find? code with
  | none => .ok none
  | some entry => if entry.deleted then .error (.deleted code.text) else .ok (some entry.url)

/-- The code of a URL, whoever owns it and whether it is deleted or not. -/
def findUrl (index : Index) (url : String) : Option ShortCode := index.byUrl.find? url

def recordOf? (index : Index) (code : ShortCode) : Option LinkRecord :=
  (index.byCode.find? code).map fun entry => ⟨code, entry.url, entry.owner, entry.deleted⟩

def listByOwner (index : Index) (owner : String) : List LinkRecord :=
  ((index.byOwner.find? owner).getD []).filterMap index.recordOf?

def size (index : Index) : Nat := index.byCode.size

def stats (index : Index) : StoreStats where
  urls := index.size
  users := (index.byOwner.keys.filter (· != "")).length

/-- Why a record cannot be inserted. A taken URL is reported before a taken code. -/
def refusal? (index : Index) (code : ShortCode) (url : String) : Option StorageError :=
  if index.byUrl.contains url then some (.conflict url)
  else if index.byCode.contains code then some (.codeCollision code.text)
  else none

def store (index : Index) (code : ShortCode) (url owner : String) : Index where
  byCode := index.byCode.insert code ⟨url, owner, false⟩
  byUrl := index.byUrl.insert url code
  byOwner := index.byOwner.insert owner ((index.byOwner.find? owner).getD [] ++ [code])

def insert (index : Index) (code : ShortCode) (url owner : String) :
    Except StorageError Unit × Index :=
  match index.refusal? code url with
  | some error => (.error error, index)
  | none => (.ok (), index.store code url owner)

def canBury (index : Index) (code : ShortCode) (owner : String) : Bool :=
  match index.byCode.find? code with
  | none => false
  | some entry => entry.owner == owner && !entry.deleted

/-- Sets the tombstone of a live record of the owner; otherwise nothing changes. -/
def bury (index : Index) (code : ShortCode) (owner : String) : Index :=
  if index.canBury code owner then
    { index with byCode := index.byCode.modify code fun entry => { entry with deleted := true } }
  else index

def insertLeading (owner : String) : List BatchEntry → Index →
    Except StorageError Unit × Index
  | [], index => (.ok (), index)
  | entry :: entries, index =>
      match index.insert entry.code entry.url owner with
      | (.error error, same) => (.error error, same)
      | (.ok _, next) => insertLeading owner entries next

def buryAll (index : Index) (codes : List ShortCode) (owner : String) : Index :=
  codes.foldl (fun current code => current.bury code owner) index

end Index

end ShortLinks
