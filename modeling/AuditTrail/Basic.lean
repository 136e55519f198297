/-!
# Tenants, failures and contexts

The identifier of a tenant has 1 to 64 bytes, all of them letters, digits, dashes and underscores of ASCII, so that
it can stand in a table name and in a pattern without escapes. An operation fails in one of few ways, each with its
words. Every operation on the data of a tenant takes its context and none of the data of others.
-/

namespace AuditTrail

/-! ## Identifiers of tenants -/

def isAlphanumeric (c : Char) : Bool := c.isAlpha || c.isDigit

namespace TenantId

/-- The bytes that an identifier has at most. -/
def maxLength : Nat := 64

/-- A character that an identifier may have. -/
def allowsChar (c : Char) : Bool := isAlphanumeric c || c == '-' || c == '_'

/-- A number of bytes that an identifier may have. -/
def allowsLength (name : String) : Bool := 1 ≤ name.utf8ByteSize && name.utf8ByteSize ≤ maxLength

end TenantId

structure TenantId where
  name : String
  length_ok : TenantId.allowsLength name = true
  chars_ok : name.toList.all TenantId.allowsChar = true
  deriving DecidableEq

namespace TenantId

instance : ToString TenantId := ⟨TenantId.name⟩

/-- The order of the names, character by character. -/
protected def lt (a b : TenantId) : Bool := decide (a.name < b.name)

end TenantId

/-! ## Failures -/

/-- A rule that a field of a request breaks. -/
inductive Violation where
  /-- A text that is not of the length it should have, in characters. -/
  | length (field : String) (min : Option Nat) (max : Nat)
  /-- A structured value that is too large, with its size in kilobytes. -/
  | size (field : String) (kilobytes : Nat)
  deriving DecidableEq, Repr

/-- The kinds of invalid requests that have a code of their own. -/
inductive RequestFault where
  | format
  | batchSize
  | tenantMismatch
  deriving DecidableEq, Repr

inductive Problem where
  | tenantIdLength
  | tenantIdCharacters
  | violations (found : List Violation)
  | severity (word : String)
  | time (text : String)
  | exportFormat
  | retentionDays
  | notOneEvent
  | noEvents
  | noEventId
  | foreignEvent (id : String) (owner tenant : TenantId)
  | repeatedId (id : String)
  | emptyBatch
  | largeBatch (size : Nat)
  | foreignTenant
  | inBatch (position : Nat) (problem : Problem)
  | other (fault : RequestFault) (text : String)
  deriving DecidableEq

inductive KeyFault where
  | missing
  | invalid
  deriving DecidableEq, Repr

inductive Failure where
  | invalid (problem : Problem)
  | unauthenticated (fault : KeyFault) (text : String)
  | noTenant
  | forbidden (text : String)
  | storeWrite (text : String)
  | storeRead (text : String)
  | conflict (text : String)
  | publish (text : String)
  | queue (text : String)
  | projection (text : String)
  | search (text : String)
  | notFound (what : String)
  | rateLimited (text : String) (retryAfter : Option Nat)
  | malformed
  | internal (text : String)
  /-- A date before or after all dates: the operation ends without an answer. -/
  | outOfRange
  deriving DecidableEq

namespace Violation

def line : Violation → String
  | length field min max =>
    field ++ ": length min=" ++ min.elim "-" (toString ·) ++ " max=" ++ toString max
  | size field kilobytes => field ++ ": blob " ++ toString kilobytes ++ "KB exceeds 64KB limit"

end Violation

def insertSorted (s : String) : List String → List String
  | [] => [s]
  | t :: rest => if s < t then s :: t :: rest else t :: insertSorted s rest

def sortTexts (texts : List String) : List String :=
  texts.foldr insertSorted []

namespace Problem

def fault : Problem → RequestFault
  | emptyBatch | largeBatch _ => .batchSize
  | foreignTenant => .tenantMismatch
  | inBatch _ problem => problem.fault
  | other fault _ => fault
  | _ => .format

/-- A problem in words. Violations are listed in the order of their lines. -/
def text : Problem → String
  | tenantIdLength => "tenant id must be 1-64 characters"
  | tenantIdCharacters => "tenant id may only contain letters, digits, '-' and '_'"
  | violations found => "\n".intercalate (sortTexts (found.map Violation.line))
  | severity word => "unknown severity: " ++ word
  | time text => "invalid time '" ++ text ++ "', expected RFC3339 or YYYY-MM-DD"
  | exportFormat => "invalid format, must be 'json' or 'csv'"
  | retentionDays => "retention days must be at least 1"
  | notOneEvent => "INDEX message must carry exactly one event"
  | noEvents => "BULK_INDEX message carries no events"
  | noEventId => "DELETE message without log_id"
  | foreignEvent id owner tenant =>
    "event " ++ id ++ " belongs to tenant " ++ owner.name ++ ", message is for " ++ tenant.name
  | repeatedId id => "duplicate event id " ++ id ++ " in batch"
  | emptyBatch => "batch must contain at least one event"
  | largeBatch size =>
    "batch of " ++ toString size ++ " events exceeds the limit of 1000"
  | foreignTenant => "tenant_id does not match the authenticated tenant"
  | inBatch position problem => "event " ++ toString position ++ ": " ++ problem.text
  | other _ text => text

end Problem

def RequestFault.code : RequestFault → String
  | format => "VALID_001"
  | batchSize => "VALID_002"
  | tenantMismatch => "VALID_003"

def KeyFault.code : KeyFault → String
  | missing => "AUTH_001"
  | invalid => "AUTH_002"

namespace Failure

/-- The class of a failure, for programs. -/
def code : Failure → String
  | invalid problem => problem.fault.code
  | unauthenticated fault _ => fault.code
  | noTenant => "AUTH_003"
  | forbidden _ => "AUTH_004"
  | storeWrite _ => "STORE_001"
  | storeRead _ => "STORE_002"
  | conflict _ => "STORE_003"
  | publish _ => "QUEUE_001"
  | queue _ => "QUEUE_002"
  | projection _ => "INDEX_001"
  | search _ => "INDEX_002"
  | notFound _ => "NOT_FOUND"
  | rateLimited _ _ => "RATE_001"
  | malformed => "VALID_001"
  | internal _ | outOfRange => "INTERNAL"

/-- The HTTP status of an answer that reports a failure. -/
def status : Failure → Nat
  | invalid _ | malformed => 400
  | unauthenticated _ _ | noTenant => 401
  | forbidden _ => 403
  | notFound _ => 404
  | conflict _ => 409
  | rateLimited _ _ => 429
  | search _ | queue _ => 503
  | storeWrite _ | storeRead _ | publish _ | projection _ | internal _ | outOfRange => 500

/-- A failure in words; most begin with the code. -/
def message (f : Failure) : String :=
  let coded (text : String) := "[" ++ f.code ++ "] " ++ text
  match f with
  | invalid problem => coded problem.text
  | unauthenticated _ text => coded text
  | noTenant => coded "missing tenant context"
  | forbidden text => coded text
  | storeWrite text => coded ("record store write failed: " ++ text)
  | storeRead text => coded ("record store read failed: " ++ text)
  | conflict text => coded ("conflict: " ++ text)
  | publish text => coded ("publish failed: " ++ text)
  | queue text => coded ("queue operation failed: " ++ text)
  | projection text => coded ("index projection failed: " ++ text)
  | search text => coded ("search failed: " ++ text)
  | notFound what => "not found: " ++ what
  | rateLimited text _ => coded text
  | malformed => "serialization error"
  | internal text => "internal error: " ++ text
  | outOfRange => "internal error: date out of range"

/-- Seconds after which a request may be repeated. -/
def retryAfter : Failure → Option Nat
  | rateLimited _ seconds => seconds
  | _ => none

end Failure

namespace TenantId

/-- Reads an identifier; its length is checked first. -/
def parse (name : String) : Except Failure TenantId :=
  if h : allowsLength name = true then
    if h' : name.toList.all allowsChar = true then .ok ⟨name, h, h'⟩
    else .error (.invalid .tenantIdCharacters)
  else .error (.invalid .tenantIdLength)

end TenantId

/-! ## Contexts -/

inductive Principal where
  | apiKey
  | system
  | anonymous
  deriving DecidableEq, Repr

def Principal.word : Principal → String
  | apiKey => "ApiKey"
  | system => "System"
  | anonymous => "Anonymous"

structure Context where
  tenant : Option TenantId
  principal : Principal
  requestId : String
  deriving DecidableEq

namespace Context

def ofTenant (tenant : TenantId) (requestId : String) : Context := ⟨some tenant, .apiKey, requestId⟩

def system (tenant : TenantId) (requestId : String) : Context := ⟨some tenant, .system, requestId⟩

def anonymous (requestId : String) : Context := ⟨none, .anonymous, requestId⟩

/-- The tenant, or the failure that there is none. -/
def requireTenant (ctx : Context) : Except Failure TenantId :=
  ctx.tenant.elim (.error .noTenant) .ok

/-- The tenant of a write, which nobody may make without one. -/
def writeTenant (ctx : Context) : Except Failure TenantId :=
  ctx.tenant.elim
    (.error (.unauthenticated .missing "write requires an authenticated tenant")) .ok

end Context

end AuditTrail
