import AuditTrail.Event.Basic
/-!
# Filters

A filter says which events a listing shows and which page of them. A criterion that is absent is met by
every event. Pages have one size and are counted from one; numbers outside the bounds are brought into them, so that
every request has a page.
-/

namespace AuditTrail

/-! ## Pages -/

/-- A page of a listing: so many entries after those of the pages before it. -/
structure PageWindow where
  page : Int
  pageSize : Int
  deriving DecidableEq, Repr

namespace PageWindow

def defaultSize : Int := 10

def maxSize : Int := 1000

/-- The first page for numbers below one; the default size for sizes below one, and at most the
largest. -/
def normalize (page pageSize : Int) : PageWindow :=
  ⟨max page 1, if pageSize < 1 then defaultSize else min pageSize maxSize⟩

def limit (w : PageWindow) : Int := w.pageSize

/-- The number of entries before the page, as far as 64 bits hold it. -/
def offset (w : PageWindow) : Int := min ((w.page - 1) * w.pageSize) (maxInt 64)

def slice {α : Type} (w : PageWindow) (entries : List α) : List α :=
  (entries.drop w.offset.toNat).take w.limit.toNat

end PageWindow

/-! ## Filters -/

structure Filter where
  userId : Option String
  action : Option String
  resourceType : Option String
  resourceId : Option String
  severity : Option Severity
  sessionId : Option String
  ipAddress : Option String
  userAgent : Option String
  /-- Text that the message contains, in letters of any case. -/
  message : Option String
  startTime : Option Instant
  endTime : Option Instant
  page : Int
  pageSize : Int

inductive Backend where
  | recordStore
  | searchIndex
  deriving DecidableEq, Repr

def Backend.word : Backend → String
  | recordStore => "record_store"
  | searchIndex => "search_index"

namespace Filter

/-- A filter that every event meets, with a page. -/
def all (page pageSize : Int) : Filter :=
  ⟨none, none, none, none, none, none, none, none, none, none, none, page, pageSize⟩

def window (f : Filter) : PageWindow := PageWindow.normalize f.page f.pageSize

/-- The filter with the numbers of its page brought into their bounds. -/
def normalized (f : Filter) : Filter :=
  { f with page := f.window.page, pageSize := f.window.pageSize }

/-- Whether a criterion is absent or met. -/
def meets {α : Type} (wanted : Option α) (test : α → Bool) : Bool := wanted.elim true test

/-- Whether an event meets all criteria. The tenant is not looked at. -/
def admits (f : Filter) (e : Event) : Bool :=
  meets f.userId (· == e.userId) &&
  meets f.action (· == e.action) &&
  meets f.resourceType (· == e.resourceType) &&
  meets f.resourceId (· == e.resourceId) &&
  meets f.sessionId (· == e.sessionId) &&
  meets f.ipAddress (· == e.ipAddress) &&
  meets f.userAgent (· == e.userAgent) &&
  meets f.severity (· == e.severity) &&
  meets f.message (fun m =>
    Text.occursIn (Text.lowerChars m.toList) (Text.lowerChars e.message.toList)) &&
  meets f.startTime (fun t => decide (t ≤ e.timestamp)) &&
  meets f.endTime (fun t => decide (e.timestamp ≤ t))

/-- Whether the filter has a criterion that the search index serves better. -/
def forSearch (f : Filter) : Bool :=
  f.userId.isSome || f.action.isSome || f.resourceType.isSome || f.severity.isSome ||
    f.startTime.isSome || f.endTime.isSome

def backend (f : Filter) : Backend := if f.forSearch then .searchIndex else .recordStore

/-- The page that a filter asks for, of the events it admits, newest first. -/
def select (f : Filter) (events : List Event) : List Event :=
  f.window.slice (Event.newestFirst (events.filter f.admits))

open Json

def read : Reader Filter := fun depth t => do
  let f ← fields ["user_id", "action", "resource_type", "resource_id", "severity", "session_id",
    "ip_address", "user_agent", "message", "start_time", "end_time", "page", "page_size"] depth t
  let userId ← f.optional "user_id" .text
  let action ← f.optional "action" .text
  let resourceType ← f.optional "resource_type" .text
  let resourceId ← f.optional "resource_id" .text
  let severity ← f.optional "severity" .severity
  let sessionId ← f.optional "session_id" .text
  let ipAddress ← f.optional "ip_address" .text
  let userAgent ← f.optional "user_agent" .text
  let message ← f.optional "message" .text
  let startTime ← f.optional "start_time" .instant
  let endTime ← f.optional "end_time" .instant
  let page ← f.required "page" .int64
  let pageSize ← f.required "page_size" .int64
  some { userId, action, resourceType, resourceId, severity, sessionId, ipAddress, userAgent,
         message, startTime, endTime, page, pageSize }

def toJson (f : Filter) : Json :=
  object
    [("user_id", optionalText f.userId), ("action", optionalText f.action),
      ("resource_type", optionalText f.resourceType), ("resource_id", optionalText f.resourceId),
      ("severity", optionalText (f.severity.map Severity.word)),
      ("session_id", optionalText f.sessionId), ("ip_address", optionalText f.ipAddress),
      ("user_agent", optionalText f.userAgent), ("message", optionalText f.message),
      ("start_time", f.startTime.elim null instant), ("end_time", f.endTime.elim null instant),
      ("page", int f.page), ("page_size", int f.pageSize)]

end Filter

end AuditTrail
