import AuditTrail.Event.Basic
/-!
# Requests to record events

A request is checked field by field and then bound to the tenant that made it. What it says about its
tenant is compared and otherwise ignored.
-/

namespace AuditTrail

structure NewEvent where
  id : Option String
  tenantId : Option String
  userId : String
  sessionId : String
  ipAddress : String
  userAgent : String
  action : String
  resourceType : String
  resourceId : String
  severity : Severity
  message : String
  beforeState : Option Json
  afterState : Option Json
  metadata : Option Json
  timestamp : Instant

namespace NewEvent

open Json

/-- The bytes that the text of a structured value has at most. -/
def maxBlobSize : Nat := 64 * 1024

/-- The violation of a text that should have at least and at most so many characters. -/
def checkText (field : String) (min : Option Nat) (max : Nat) (s : String) : List Violation :=
  if lengthWithin (min.getD 0) max s then [] else [.length field min max]

/-- The violation of a structured value whose text is too large. -/
def checkBlob (field : String) (v : Option Json) : List Violation :=
  match v with
  | none | some .null => []
  | some v =>
    let size := v.compact.utf8ByteSize
    if size ≤ maxBlobSize then [] else [.size field (size / 1024)]

def violations (r : NewEvent) : List Violation :=
  r.id.elim [] (checkText "id" (some 1) 64) ++
  checkText "user_id" none 128 r.userId ++
  checkText "session_id" none 128 r.sessionId ++
  checkText "ip_address" none 45 r.ipAddress ++
  checkText "user_agent" none 512 r.userAgent ++
  checkText "action" (some 1) 128 r.action ++
  checkText "resource_type" (some 1) 128 r.resourceType ++
  checkText "resource_id" (some 1) 256 r.resourceId ++
  checkText "message" (some 1) 4096 r.message ++
  checkBlob "before_state" r.beforeState ++
  checkBlob "after_state" r.afterState ++
  checkBlob "metadata" r.metadata

/-- Whether the request names a tenant other than the one that makes it. -/
def claimsOther (r : NewEvent) (tenant : TenantId) : Bool :=
  match r.tenantId with
  | some claimed => !claimed.isEmpty && claimed != tenant.name
  | none => false

/-- The identifier of the event: the one of the request unless that is blank. -/
def eventId (r : NewEvent) (freshId : String) : String :=
  match r.id with
  | some id => if Text.blank id then freshId else id
  | none => freshId

/-- The event that a request of a tenant asks for. Times are kept to the microsecond. -/
def accept (r : NewEvent) (tenant : TenantId) (now : Instant) (freshId : String) :
    Except Failure Event :=
  if r.violations ≠ [] then .error (.invalid (.violations r.violations))
  else if r.claimsOther tenant then .error (.invalid .foreignTenant)
  else .ok
    { id := r.eventId freshId
      tenant
      userId := r.userId
      sessionId := r.sessionId
      ipAddress := r.ipAddress
      userAgent := r.userAgent
      action := r.action
      resourceType := r.resourceType
      resourceId := r.resourceId
      severity := r.severity
      message := r.message
      beforeState := r.beforeState
      afterState := r.afterState
      metadata := r.metadata
      timestamp := r.timestamp.truncate
      createdAt := now.truncate
      updatedAt := now.truncate }

/-- The problem of a request within a batch. -/
def inBatch (position : Nat) : Failure → Failure
  | .invalid problem => .invalid (.inBatch position problem)
  | failure => failure

/-- The events that a batch of requests asks for; `freshIds` stand by for their identifiers. The first
request that is refused fails the batch. -/
def acceptAll (requests : List NewEvent) (tenant : TenantId) (now : Instant)
    (freshIds : Nat → String) : Except Failure (List Event) :=
  requests.zipIdx.mapM fun (r, i) =>
    match r.accept tenant now (freshIds i) with
    | .ok e => .ok e
    | .error f => .error (inBatch i f)

/-- The fields of a request in their order. -/
def fieldNames : List String :=
  ["id", "tenant_id", "user_id", "session_id", "ip_address", "user_agent", "action",
    "resource_type", "resource_id", "severity", "message", "before_state", "after_state", "metadata",
    "timestamp"]

def read : Reader NewEvent := fun depth t => do
  let f ← fields fieldNames depth t
  let id ← f.withDefault "id" (.optional .text) none
  let tenantId ← f.withDefault "tenant_id" (.optional .text) none
  let userId ← f.withDefault "user_id" .text ""
  let sessionId ← f.withDefault "session_id" .text ""
  let ipAddress ← f.withDefault "ip_address" .text ""
  let userAgent ← f.withDefault "user_agent" .text ""
  let action ← f.required "action" .text
  let resourceType ← f.required "resource_type" .text
  let resourceId ← f.required "resource_id" .text
  let severity ← f.withDefault "severity" .severity .info
  let message ← f.required "message" .text
  let beforeState ← f.withDefault "before_state" .blob none
  let afterState ← f.withDefault "after_state" .blob none
  let metadata ← f.withDefault "metadata" .blob none
  let timestamp ← f.required "timestamp" .instant
  some { id, tenantId, userId, sessionId, ipAddress, userAgent, action, resourceType, resourceId,
         severity, message, beforeState, afterState, metadata, timestamp }

/-- The request with its fields in order; those that are absent are `null`. -/
def toJson (r : NewEvent) : Json :=
  object
    [("id", optionalText r.id), ("tenant_id", optionalText r.tenantId), ("user_id", text r.userId),
      ("session_id", text r.sessionId), ("ip_address", text r.ipAddress),
      ("user_agent", text r.userAgent), ("action", text r.action),
      ("resource_type", text r.resourceType), ("resource_id", text r.resourceId),
      ("severity", text r.severity.word), ("message", text r.message),
      ("before_state", r.beforeState.getD null), ("after_state", r.afterState.getD null),
      ("metadata", r.metadata.getD null), ("timestamp", instant r.timestamp)]

/-- Reads a batch of requests: an array, or an object with the array under `logs`. Numbers and texts
have to have a value even where they are not used. -/
def readBatch : Reader (List NewEvent) := fun depth t => do
  let _ ← Reader.json depth t
  match t with
  | .object _ => (← fields ["logs"] depth t).required "logs" (.list read)
  | t => Reader.list read depth t

end NewEvent

end AuditTrail
