import AuditTrail.Tenant
import AuditTrail.Text.LowerCase
/-!
# Audit events

An event says who did what to which resource. It is immutable, belongs to one tenant and is identified
within it. Three of its parts are structured values that the trail does not look into.
-/

namespace AuditTrail

inductive Severity where
  | info
  | warning
  | error
  | critical
  deriving DecidableEq, Repr

namespace Severity

def word : Severity → String
  | info => "info"
  | warning => "warning"
  | error => "error"
  | critical => "critical"

def ofWord? : String → Option Severity
  | "info" => some info
  | "warning" => some warning
  | "error" => some error
  | "critical" => some critical
  | _ => none

/-- Reads a severity in letters of any case; a warning may be shortened. -/
def parse (s : String) : Except Failure Severity :=
  let s := String.ofList (s.toList.map Char.toLower)
  if s = "warn" then .ok warning
  else (ofWord? s).elim (.error (.invalid (.severity s))) .ok

end Severity

structure Event where
  id : String
  tenant : TenantId
  userId : String
  sessionId : String
  ipAddress : String
  userAgent : String
  action : String
  resourceType : String
  resourceId : String
  severity : Severity
  message : String
  beforeState : Option Json
  afterState : Option Json
  metadata : Option Json
  /-- When it happened, as the caller says. -/
  timestamp : Instant
  createdAt : Instant
  updatedAt : Instant

namespace Json

def Reader.severity : Reader Severity := Reader.word Severity.ofWord?

/-- A structured value, or `null` for none. -/
def Reader.blob : Reader (Option Json) := Reader.optional Reader.json

def member? (name : String) (v : Option Json) : List (String × Json) :=
  v.elim [] fun v => [(name, v)]

end Json

namespace Event

open Json

/-- The fields of an event in their order. -/
def fieldNames : List String :=
  ["id", "tenant_id", "user_id", "session_id", "ip_address", "user_agent", "action",
    "resource_type", "resource_id", "severity", "message", "before_state", "after_state", "metadata",
    "timestamp", "created_at", "updated_at"]

def read : Reader Event := fun depth t => do
  let f ← fields fieldNames depth t
  let id ← f.required "id" .text
  let tenant ← f.required "tenant_id" .tenantId
  let userId ← f.withDefault "user_id" .text ""
  let sessionId ← f.withDefault "session_id" .text ""
  let ipAddress ← f.withDefault "ip_address" .text ""
  let userAgent ← f.withDefault "user_agent" .text ""
  let action ← f.required "action" .text
  let resourceType ← f.required "resource_type" .text
  let resourceId ← f.required "resource_id" .text
  let severity ← f.required "severity" .severity
  let message ← f.required "message" .text
  let beforeState ← f.withDefault "before_state" .blob none
  let afterState ← f.withDefault "after_state" .blob none
  let metadata ← f.withDefault "metadata" .blob none
  let timestamp ← f.required "timestamp" .instant
  let createdAt ← f.required "created_at" .instant
  let updatedAt ← f.required "updated_at" .instant
  some { id, tenant, userId, sessionId, ipAddress, userAgent, action, resourceType, resourceId,
         severity, message, beforeState, afterState, metadata, timestamp, createdAt, updatedAt }

/-- The event with its fields in order; structured values that are absent are left out. -/
def toJson (e : Event) : Json :=
  object <|
    [("id", text e.id), ("tenant_id", text e.tenant.name), ("user_id", text e.userId),
      ("session_id", text e.sessionId), ("ip_address", text e.ipAddress),
      ("user_agent", text e.userAgent), ("action", text e.action),
      ("resource_type", text e.resourceType), ("resource_id", text e.resourceId),
      ("severity", text e.severity.word), ("message", text e.message)] ++
    member? "before_state" e.beforeState ++ member? "after_state" e.afterState ++
    member? "metadata" e.metadata ++
    [("timestamp", instant e.timestamp), ("created_at", instant e.createdAt),
      ("updated_at", instant e.updatedAt)]

/-- Newest first; of two events at one instant the one with the smaller identifier. -/
def precedes (a b : Event) : Bool :=
  decide (b.timestamp < a.timestamp) ||
    (decide (a.timestamp = b.timestamp) && decide (a.id < b.id))

/-- Events newest first, equal ones in the order they were given. -/
def newestFirst (events : List Event) : List Event :=
  events.mergeSort fun a b => !precedes b a

end Event

end AuditTrail
