import AuditTrail.Filter.Parameters
import AuditTrail.Gateway.Basic
import AuditTrail.Pipeline.Queries
/-!
# Routes and what requests say

The paths that are served and the methods that each of them has, and what a request gives in its path, its query and
its content. A parameter of the query may be given once; parameters that nobody asks for are not looked at.
-/

namespace AuditTrail

/-! ## Routes -/

/-- What a path leads to. Variable segments are kept as they are written. -/
inductive Route where
  | events
  | eventBatch
  | eventExport
  | eventStats
  | eventCleanup
  | event (id : String)
  | tenants
  | tenant (id : String)
  | tenantEvent (tenant id : String)
  | health
  | readiness
  | liveness
  | metrics
  deriving DecidableEq, Repr

namespace Route

open Http

/-- A variable segment, which is not empty. -/
def segment? (s : String) : Option String := if s.isEmpty then none else some s

/-- The route of a path. Fixed segments are preferred to variable ones. -/
def ofSegments? : List String → Option Route
  | ["", "health"] => some health
  | ["", "health", "ready"] => some readiness
  | ["", "health", "live"] => some liveness
  | ["", "metrics"] => some metrics
  | ["", "api", "v1", "logs"] => some events
  | ["", "api", "v1", "logs", "bulk"] => some eventBatch
  | ["", "api", "v1", "logs", "export"] => some eventExport
  | ["", "api", "v1", "logs", "stats"] => some eventStats
  | ["", "api", "v1", "logs", "cleanup"] => some eventCleanup
  | ["", "api", "v1", "logs", id] => (segment? id).map event
  | ["", "api", "v1", "admin", "tenants"] => some tenants
  | ["", "api", "v1", "admin", "tenants", id] => (segment? id).map tenant
  | ["", "api", "v1", "admin", "tenants", id, "logs", logId] => do
    some (tenantEvent (← segment? id) (← segment? logId))
  | _ => none

/-- The methods of a route. Whatever can be read has a method that answers without the content. -/
def methods : Route → List Method
  | events | tenants => [.post, .get, .head]
  | eventBatch => [.post]
  | eventCleanup | tenantEvent _ _ => [.delete]
  | tenant _ => [.get, .head, .put, .delete]
  | eventExport | eventStats | event _ | health | readiness | liveness | metrics => [.get, .head]

end Route

/-! ## Requests -/

namespace Gateway

/-- The bytes that the content of a request has at most. -/
def maxContent : Nat := 2097152

/-- The text that a variable segment of the path stands for. -/
def readSegment (segment : String) : Serving String :=
  match Http.decodeSegment? segment with
  | some s => return s
  | none => throw .unreadable

/-- Refuses a request whose content is too large. -/
def checkContent (r : Http.Request) : Serving Unit := do
  if maxContent < r.body.bytes.length then throw .tooLarge

def readContent {α : Type} (read : Json.Reader α) (r : Http.Request) : Serving α := do
  checkContent r
  match read.ofBytes r.body.bytes with
  | some a => return a
  | none => throw .notJson

/-- A look-up of the parameters of these names; none if one of them is given twice. -/
def parameters? (names : List String) (query : List (String × String)) :
    Option (String → Option String) :=
  let known := query.filter fun p => names.contains p.1
  if Json.hasRepeated (known.map Prod.fst) then none else some (known.lookup ·)

def readParameters (names : List String) (r : Http.Request) :
    Serving (String → Option String) :=
  match parameters? names r.query with
  | some value => return value
  | none => throw .unreadable

def readFilter (r : Http.Request) : Serving Filter := do
  let value ← readParameters FilterParameters.names r
  accept (FilterParameters.ofLookup value).toFilter

/-- The format and the filter of an export. -/
def readExport (r : Http.Request) : Serving (ExportFormat × Filter) := do
  let value ← readParameters ("format" :: FilterParameters.names) r
  let format ← match FilterParameters.nonBlank (value "format") with
    | some s => accept (ExportFormat.parse s)
    | none => pure .json
  let f ← accept (FilterParameters.ofLookup value).toFilter
  return (format, f)

def readPolicy (r : Http.Request) : Serving RetentionPolicy := do
  let value ← readParameters ["days"] r
  match value "days" with
  | none => return .standard
  | some s =>
    match parseNatural (wordBound 32) s with
    | some days => accept (RetentionPolicy.ofDays days)
    | none => throw .unreadable

end Gateway

end AuditTrail
