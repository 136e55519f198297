import AuditTrail.Filter.Basic
/-!
# Filters as request parameters

A request gives the criteria of a filter as texts. Blank ones are absent, and a page number that is no
number counts as none.
-/

namespace AuditTrail

/-- The last microsecond of a day, as nanoseconds of its last second. -/
def lastNanos : Nat := 999999000

/-- A bound of a span of time: an instant, or a date for its first or its last instant. -/
def timeBound (value : String) (isEnd : Bool) : Except Failure Instant :=
  let value := Text.trim value
  let found := match Instant.ofRfc3339? value with
    | some t => some t
    | none => (Date.ofText? value).bind fun d =>
      if isEnd then Instant.ofLocal? d 23 59 59 lastNanos 0 else Instant.ofLocal? d 0 0 0 0 0
  found.elim (.error (.invalid (.time value))) .ok

structure FilterParameters where
  userId : Option String
  action : Option String
  resourceType : Option String
  resourceId : Option String
  severity : Option String
  sessionId : Option String
  ipAddress : Option String
  userAgent : Option String
  message : Option String
  startTime : Option String
  endTime : Option String
  page : Option String
  pageSize : Option String

namespace FilterParameters

/-- A parameter without blanks at its ends; none if nothing is left. -/
def nonBlank (value : Option String) : Option String :=
  (value.map Text.trim).filter fun s => !s.isEmpty

def number (value : Option String) : Int :=
  ((nonBlank value).bind (parseInteger (minInt 64) (maxInt 64))).getD 0

def convert {α : Type} (value : Option String) (read : String → Except Failure α) :
    Except Failure (Option α) :=
  match nonBlank value with
  | some s => (read s).map some
  | none => .ok none

/-- The filter that the parameters ask for. -/
def toFilter (p : FilterParameters) : Except Failure Filter := do
  let severity ← convert p.severity Severity.parse
  let startTime ← convert p.startTime (timeBound · false)
  let endTime ← convert p.endTime (timeBound · true)
  return {
    userId := nonBlank p.userId
    action := nonBlank p.action
    resourceType := nonBlank p.resourceType
    resourceId := nonBlank p.resourceId
    severity
    sessionId := nonBlank p.sessionId
    ipAddress := nonBlank p.ipAddress
    userAgent := nonBlank p.userAgent
    message := nonBlank p.message
    startTime
    endTime
    page := number p.page
    pageSize := number p.pageSize }

def names : List String :=
  ["user_id", "action", "resource_type", "resource_id", "severity", "session_id", "ip_address",
    "user_agent", "message", "start_time", "end_time", "page", "page_size"]

/-- The parameters that a look-up by name finds. -/
def ofLookup (value : String → Option String) : FilterParameters where
  userId := value "user_id"
  action := value "action"
  resourceType := value "resource_type"
  resourceId := value "resource_id"
  severity := value "severity"
  sessionId := value "session_id"
  ipAddress := value "ip_address"
  userAgent := value "user_agent"
  message := value "message"
  startTime := value "start_time"
  endTime := value "end_time"
  page := value "page"
  pageSize := value "page_size"

open Json

def read : Reader FilterParameters := fun depth t => do
  let f ← fields names depth t
  let userId ← f.optional "user_id" .text
  let action ← f.optional "action" .text
  let resourceType ← f.optional "resource_type" .text
  let resourceId ← f.optional "resource_id" .text
  let severity ← f.optional "severity" .text
  let sessionId ← f.optional "session_id" .text
  let ipAddress ← f.optional "ip_address" .text
  let userAgent ← f.optional "user_agent" .text
  let message ← f.optional "message" .text
  let startTime ← f.optional "start_time" .text
  let endTime ← f.optional "end_time" .text
  let page ← f.optional "page" .text
  let pageSize ← f.optional "page_size" .text
  some { userId, action, resourceType, resourceId, severity, sessionId, ipAddress, userAgent,
         message, startTime, endTime, page, pageSize }

end FilterParameters

end AuditTrail
