import AuditTrail.Basic
import AuditTrail.Json.Reader
import AuditTrail.Time.Text
/-!
# Tenants and their keys

A tenant holds one key: `alk_` and 32 letters and digits. A key is presented in one of two headers; a bearer token
decides alone, even when it is no key.
-/

namespace AuditTrail

/-! ## Keys -/

namespace ApiKey

/-- The characters that every key begins with. -/
def mark : List Char := ['a', 'l', 'k', '_']

/-- The mark, then 32 letters and digits. -/
def isWellFormed (text : String) : Bool :=
  let cs := text.toList
  cs.take 4 == mark && (cs.drop 4).length == 32 && (cs.drop 4).all isAlphanumeric

end ApiKey

structure ApiKey where
  text : String
  wellFormed : ApiKey.isWellFormed text = true
  deriving DecidableEq

namespace ApiKey

def parse (text : String) : Except Failure ApiKey :=
  if text.isEmpty then .error (.unauthenticated .missing "API key is required")
  else if h : isWellFormed text = true then .ok ⟨text, h⟩
  else .error (.unauthenticated .invalid "Invalid API key format")

/-- A key without most of its characters, for logs. -/
def redacted (key : ApiKey) : String := "ApiKey(" ++ String.ofList (key.text.toList.take 8) ++ "...)"

/-- What follows a given beginning of a text. -/
def dropMark? (mark text : List Char) : Option (List Char) :=
  if mark.isPrefixOf text then some (text.drop mark.length) else none

/-- The key of a request: the bearer token of the first header, else the second header. -/
def extract (authorization apiKey : Option String) : Except Failure ApiKey :=
  match authorization.bind fun a => dropMark? "Bearer ".toList a.toList with
  | some token => parse (String.ofList (Text.trimChars token))
  | none =>
    match apiKey with
    | some text => parse (Text.trim text)
    | none => .error (.unauthenticated .missing "API key is required")

/-- The key that is made of a random identifier of 32 hexadecimal digits and dashes. -/
def ofUuid (uuid : String) : String :=
  String.ofList (mark ++ uuid.toList.filter (· ≠ '-'))

end ApiKey

/-! ## Tenants -/

/-- A tenant. The key is its own and no other tenant's. -/
structure Tenant where
  id : TenantId
  name : String
  apiKey : String
  createdAt : Instant
  updatedAt : Instant
  deriving DecidableEq

structure NewTenant where
  id : Option String
  name : String

structure TenantUpdate where
  name : String

namespace Json

/-- Reads an instant in the relaxed form. -/
def Reader.instant : Reader Instant := Reader.text.andThen Instant.ofText?

def Reader.tenantId : Reader TenantId :=
  Reader.text.andThen fun s => (TenantId.parse s).toOption

def instant (t : Instant) : Json := text t.written

end Json

/-- Whether a text has at least and at most so many characters. -/
def lengthWithin (min max : Nat) (s : String) : Bool := min ≤ s.length && s.length ≤ max

namespace NewTenant

open Json

def read : Reader NewTenant := fun depth t => do
  let f ← fields ["id", "name"] depth t
  let id ← f.withDefault "id" (.optional .text) none
  let name ← f.required "name" .text
  some ⟨id, name⟩

end NewTenant

namespace TenantUpdate

open Json

def read : Reader TenantUpdate := fun depth t => do
  let f ← fields ["name"] depth t
  let name ← f.required "name" .text
  some ⟨name⟩

end TenantUpdate

namespace Tenant

/-- The characters that a name has at most. -/
def maxNameLength : Nat := 200

/-- Refuses a name that is empty or too long. -/
def checkName (name : String) : Except Failure Unit :=
  if lengthWithin 1 maxNameLength name then .ok ()
  else .error (.invalid (.violations [.length "name" (some 1) maxNameLength]))

/-- The tenant that a request asks for. The name loses blanks at its ends; of two random identifiers one
stands by for the identifier, unless the request has one, and the other makes the key. -/
def register (request : NewTenant) (now : Instant) (freshId keyUuid : String) :
    Except Failure Tenant := do
  checkName request.name
  let id ← TenantId.parse (request.id.getD freshId)
  return ⟨id, Text.trim request.name, ApiKey.ofUuid keyUuid, now, now⟩

def rename (t : Tenant) (name : String) (now : Instant) : Tenant :=
  { t with name := Text.trim name, updatedAt := now }

open Json

def read : Reader Tenant := fun depth t => do
  let f ← fields ["id", "name", "api_key", "created_at", "updated_at"] depth t
  let id ← f.required "id" .tenantId
  let name ← f.required "name" .text
  let apiKey ← f.required "api_key" .text
  let createdAt ← f.required "created_at" .instant
  let updatedAt ← f.required "updated_at" .instant
  some ⟨id, name, apiKey, createdAt, updatedAt⟩

def toJson (t : Tenant) : Json :=
  object [("id", text t.id.name), ("name", text t.name), ("api_key", text t.apiKey),
    ("created_at", instant t.createdAt), ("updated_at", instant t.updatedAt)]

end Tenant

end AuditTrail
