import ShortLinks.Json.Schema
import ShortLinks.Record

/-!
# The records as JSON

The schema of each record that leaves or enters the program as JSON, with its
reader and its members in writing order.
-/

namespace ShortLinks

set_option autoImplicit false

open Json

namespace Json

def required (name : String) (kind : Kind) : Field := ⟨name, kind, none⟩

def textMember (members : Members) (name : String) : Except Fault String :=
  match members.lookup name with
  | some (.text value) => .ok value
  | _ => .error (.missingField name)

def flagMember (members : Members) (name : String) : Except Fault Bool :=
  match members.lookup name with
  | some (.flag value) => .ok value
  | _ => .error (.missingField name)

def countMember (members : Members) (name : String) : Except Fault Nat :=
  match members.lookup name with
  | some (.count value) => .ok value
  | _ => .error (.missingField name)

def encodeMembers (members : Members) : String := String.ofList (writeMembers members)

end Json

namespace ShortCode

def toJson (code : ShortCode) : String := String.ofList (writeString code.text)

def fromJson (text : String) : Except Fault ShortCode := (decodeText text).map ShortCode.mk

end ShortCode

namespace LinkRecord

def schema : Schema :=
  ⟨"UrlRecord",
    [required "short_code" .text, required "original_url" .text,
      required "owner" .text, required "deleted" .flag]⟩

def members (record : LinkRecord) : Members :=
  [("short_code", .text record.code.text), ("original_url", .text record.url),
    ("owner", .text record.owner), ("deleted", .flag record.deleted)]

def ofMembers (members : Members) : Except Fault LinkRecord := do
  let code ← textMember members "short_code"
  let url ← textMember members "original_url"
  let owner ← textMember members "owner"
  let deleted ← flagMember members "deleted"
  return ⟨⟨code⟩, url, owner, deleted⟩

def toJson (record : LinkRecord) : String := encodeMembers record.members

def fromJson (text : String) : Except Fault LinkRecord :=
  (decodeRecord schema text).bind ofMembers

end LinkRecord

namespace StoreStats

def schema : Schema := ⟨"StorageStats", [required "urls" .count, required "users" .count]⟩

def members (stats : StoreStats) : Members :=
  [("urls", .count stats.urls), ("users", .count stats.users)]

def ofMembers (members : Members) : Except Fault StoreStats := do
  let urls ← countMember members "urls"
  let users ← countMember members "users"
  return ⟨urls, users⟩

def toJson (stats : StoreStats) : String := encodeMembers stats.members

def fromJson (text : String) : Except Fault StoreStats :=
  (decodeRecord schema text).bind ofMembers

end StoreStats

namespace BatchItem

def schema : Schema :=
  ⟨"BatchRequestItem", [required "correlation_id" .text, required "original_url" .text]⟩

def members (item : BatchItem) : Members :=
  [("correlation_id", .text item.correlation), ("original_url", .text item.url)]

def ofMembers (members : Members) : Except Fault BatchItem := do
  let correlation ← textMember members "correlation_id"
  let url ← textMember members "original_url"
  return ⟨correlation, url⟩

def toJson (item : BatchItem) : String := encodeMembers item.members

def fromJson (text : String) : Except Fault BatchItem :=
  (decodeRecord schema text).bind ofMembers

end BatchItem

namespace BatchLink

def schema : Schema :=
  ⟨"BatchResponseItem", [required "correlation_id" .text, required "short_url" .text]⟩

def members (item : BatchLink) : Members :=
  [("correlation_id", .text item.correlation), ("short_url", .text item.link)]

def ofMembers (members : Members) : Except Fault BatchLink := do
  let correlation ← textMember members "correlation_id"
  let link ← textMember members "short_url"
  return ⟨correlation, link⟩

def toJson (item : BatchLink) : String := encodeMembers item.members

def fromJson (text : String) : Except Fault BatchLink :=
  (decodeRecord schema text).bind ofMembers

end BatchLink

namespace OwnedLink

def schema : Schema :=
  ⟨"UserUrl", [required "short_url" .text, required "original_url" .text]⟩

def members (item : OwnedLink) : Members :=
  [("short_url", .text item.link), ("original_url", .text item.url)]

def ofMembers (members : Members) : Except Fault OwnedLink := do
  let link ← textMember members "short_url"
  let url ← textMember members "original_url"
  return ⟨link, url⟩

def toJson (item : OwnedLink) : String := encodeMembers item.members

def fromJson (text : String) : Except Fault OwnedLink :=
  (decodeRecord schema text).bind ofMembers

end OwnedLink

end ShortLinks
