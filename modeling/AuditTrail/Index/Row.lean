import AuditTrail.Event.Basic
/-!
# Index rows

An event as a row of a column store: times are microseconds since 1970, and structured values are their
texts.
-/

namespace AuditTrail

structure IndexRow where
  id : String
  tenantId : String
  userId : String
  sessionId : String
  ipAddress : String
  userAgent : String
  action : String
  resourceType : String
  resourceId : String
  severity : String
  message : String
  beforeState : Option String
  afterState : Option String
  metadata : Option String
  timestamp : Int
  createdAt : Int
  updatedAt : Int
  indexedAt : Int
  deriving DecidableEq, Repr

namespace IndexRow

def ofEvent (e : Event) (indexedAt : Instant) : IndexRow where
  id := e.id
  tenantId := e.tenant.name
  userId := e.userId
  sessionId := e.sessionId
  ipAddress := e.ipAddress
  userAgent := e.userAgent
  action := e.action
  resourceType := e.resourceType
  resourceId := e.resourceId
  severity := e.severity.word
  message := e.message
  beforeState := e.beforeState.map Json.compact
  afterState := e.afterState.map Json.compact
  metadata := e.metadata.map Json.compact
  timestamp := e.timestamp.micros
  createdAt := e.createdAt.micros
  updatedAt := e.updatedAt.micros
  indexedAt := indexedAt.micros

/-- The structured value that a text holds. -/
def readBlob (s : Option String) : Except Failure (Option Json) :=
  match s with
  | none => .ok none
  | some s =>
    match Json.Reader.ofText Json.Reader.json s with
    | some v => .ok (some v)
    | none => .error .malformed

/-- The instant of a number of microseconds. -/
def readTime (micros : Int) : Except Failure Instant :=
  (Instant.ofMicros? micros).elim
    (.error (.search ("timestamp out of range: " ++ String.ofList (Json.intChars micros)))) .ok

def toEvent (r : IndexRow) : Except Failure Event := do
  let tenant ← TenantId.parse r.tenantId
  let severity ← Severity.parse r.severity
  let beforeState ← readBlob r.beforeState
  let afterState ← readBlob r.afterState
  let metadata ← readBlob r.metadata
  let timestamp ← readTime r.timestamp
  let createdAt ← readTime r.createdAt
  let updatedAt ← readTime r.updatedAt
  return {
    id := r.id, tenant, userId := r.userId, sessionId := r.sessionId, ipAddress := r.ipAddress
    userAgent := r.userAgent, action := r.action, resourceType := r.resourceType
    resourceId := r.resourceId, severity, message := r.message, beforeState, afterState, metadata
    timestamp, createdAt, updatedAt }

open Json

def columns : List String :=
  ["id", "tenant_id", "user_id", "session_id", "ip_address", "user_agent", "action",
    "resource_type", "resource_id", "severity", "message", "before_state", "after_state", "metadata",
    "timestamp", "created_at", "updated_at", "indexed_at"]

def read : Reader IndexRow := fun depth t => do
  let f ← fields columns depth t
  let id ← f.required "id" .text
  let tenantId ← f.required "tenant_id" .text
  let userId ← f.required "user_id" .text
  let sessionId ← f.required "session_id" .text
  let ipAddress ← f.required "ip_address" .text
  let userAgent ← f.required "user_agent" .text
  let action ← f.required "action" .text
  let resourceType ← f.required "resource_type" .text
  let resourceId ← f.required "resource_id" .text
  let severity ← f.required "severity" .text
  let message ← f.required "message" .text
  let beforeState ← f.optional "before_state" .text
  let afterState ← f.optional "after_state" .text
  let metadata ← f.optional "metadata" .text
  let timestamp ← f.required "timestamp" .int64
  let createdAt ← f.required "created_at" .int64
  let updatedAt ← f.required "updated_at" .int64
  let indexedAt ← f.required "indexed_at" .int64
  some { id, tenantId, userId, sessionId, ipAddress, userAgent, action, resourceType, resourceId,
         severity, message, beforeState, afterState, metadata, timestamp, createdAt, updatedAt,
         indexedAt }

/-- The values of the columns in their order. -/
def values (r : IndexRow) : List Json :=
  [text r.id, text r.tenantId, text r.userId, text r.sessionId, text r.ipAddress, text r.userAgent,
    text r.action, text r.resourceType, text r.resourceId, text r.severity, text r.message,
    optionalText r.beforeState, optionalText r.afterState, optionalText r.metadata, int r.timestamp,
    int r.createdAt, int r.updatedAt, int r.indexedAt]

def toJson (r : IndexRow) : Json := object (columns.zip r.values)

end IndexRow

end AuditTrail
