import AuditTrail.Gateway.Reading
import AuditTrail.Pipeline.Ingestion
/-!
# Serving requests

Who asks is checked first, then what is asked, and only then something is done. Tenants present their key
and see their own events; administrators manage tenants and may delete an event of any tenant.
-/

namespace AuditTrail

namespace Gateway

open Http Pipeline

/-- Answers with the receipt of a write. -/
def receiptAnswer (status : Nat) (r : Receipt) : Answer := .json status r.toAnswer

/-! ## Events -/

def postEvent (m : Moment) (r : Request) : Serving Answer := do
  let ctx ← authenticate m r
  let request ← readContent NewEvent.read r
  return receiptAnswer 201 (← perform (createEvent m.now (m.fresh 1) ctx request))

def postEvents (m : Moment) (r : Request) : Serving Answer := do
  let ctx ← authenticate m r
  let requests ← readContent NewEvent.readBatch r
  let receipt ← perform (createEvents m.now (fun i => m.fresh (i + 1)) ctx requests)
  return receiptAnswer 201 receipt

def getEvents (m : Moment) (r : Request) : Serving Answer := do
  let ctx ← authenticate m r
  let f ← readFilter r
  return .json 200 (.array ((← perform (listEvents ctx f)).map Event.toJson))

def getOneEvent (m : Moment) (r : Request) (id : String) : Serving Answer := do
  let ctx ← authenticate m r
  let id ← readSegment id
  return .json 200 (← perform (getEvent ctx id)).toJson

def getStats (m : Moment) (r : Request) : Serving Answer := do
  let ctx ← authenticate m r
  let f ← readFilter r
  let s ← perform (stats ctx f)
  return .json 200 (.object (("backend", .text f.backend.word) :: s.members))

def getExport (m : Moment) (r : Request) : Serving Answer := do
  let ctx ← authenticate m r
  let (format, f) ← readExport r
  let text ← perform (exportEvents ctx f format)
  return {
    status := 200
    contentType := some format.contentType
    content := .text text
    headers := [("content-disposition", "attachment; filename=" ++ format.fileName)] }

def cleanUp (m : Moment) (r : Request) : Serving Answer := do
  let ctx ← authenticate m r
  let policy ← readPolicy r
  let purged ← perform (purge m.now ctx policy)
  return .json 200 (.object [("purged", .nat purged), ("days", .nat policy.days)])

/-! ## Tenants -/

def readTenantId (segment : String) : Serving TenantId := do
  accept (TenantId.parse (← readSegment segment))

def postTenant (m : Moment) (r : Request) : Serving Answer := do
  authorize r
  let request ← readContent NewTenant.read r
  return .json 201 (← perform (registerTenant m.now (m.fresh 1) (m.fresh 2) request)).toJson

def getTenants (r : Request) : Serving Answer := do
  authorize r
  return .json 200 (.array ((← perform listTenants).map Tenant.toJson))

def getOneTenant (r : Request) (id : String) : Serving Answer := do
  authorize r
  let id ← readTenantId id
  return .json 200 (← perform (requireTenant id)).toJson

def putTenant (m : Moment) (r : Request) (id : String) : Serving Answer := do
  authorize r
  let id ← readSegment id
  let request ← readContent TenantUpdate.read r
  let id ← accept (TenantId.parse id)
  let tenant ← perform (renameTenant m.now id request)
  forget tenant.apiKey
  return .json 200 tenant.toJson

def deleteTenantAnswer (r : Request) (id : String) : Serving Answer := do
  authorize r
  let id ← readTenantId id
  let tenant ← perform (requireTenant id)
  let outcome ← perform (removeTenant id)
  forget tenant.apiKey
  return .json 200 (.object [("id", .text id.name), ("index", outcome.toJson)])

def deleteTenantEvent (m : Moment) (r : Request) (tenant id : String) : Serving Answer := do
  authorize r
  let tenant ← readSegment tenant
  let id ← readSegment id
  let tenant ← accept (TenantId.parse tenant)
  let _ ← perform (requireTenant tenant)
  let receipt ← perform (deleteEvent m.now (.system tenant (requestId m r)) id)
  return receiptAnswer 200 receipt

/-! ## The state of the service -/

def getHealth : Serving Answer := do
  let depth ← perform probe
  let h := (← get).pipeline.health
  return .json 200 <| .object
    [("status", .text h.status.word), ("record_store_connected", .bool h.recordStore.up),
      ("search_index_connected", .bool h.searchIndex.up), ("queue_connected", .bool h.queue.up),
      ("queue_depth", .nat depth), ("components", h.componentsJson)]

def getReadiness : Serving Answer := do
  let _ ← perform probe
  return { status := if (← get).pipeline.health.isReady then 200 else 503 }

def getMetrics : Serving Answer := do
  let readings := (← get).pipeline.metrics.readings
  return .json 200 (.object (readings.map fun (name, n) => (name, .nat n)))

/-! ## Requests -/

/-- The answer to a method of a route that has it. -/
def serveMethod (m : Moment) (r : Request) : Route → Method → Serving Answer
  | .events, .post => postEvent m r
  | .events, _ => getEvents m r
  | .eventBatch, _ => postEvents m r
  | .eventExport, _ => getExport m r
  | .eventStats, _ => getStats m r
  | .eventCleanup, _ => cleanUp m r
  | .event id, _ => getOneEvent m r id
  | .tenants, .post => postTenant m r
  | .tenants, _ => getTenants r
  | .tenant id, .put => putTenant m r id
  | .tenant id, .delete => deleteTenantAnswer r id
  | .tenant id, _ => getOneTenant r id
  | .tenantEvent tenant id, _ => deleteTenantEvent m r tenant id
  | .health, _ => getHealth
  | .readiness, _ => getReadiness
  | .liveness, _ => return { status := 200 }
  | .metrics, _ => getMetrics

def serveRoute (m : Moment) (r : Request) (route : Route) : Serving Answer := do
  if r.method ∉ route.methods then
    let allowed := ",".intercalate (route.methods.map Method.name)
    return { status := 405, headers := [("allow", allowed)] }
  serveMethod m r route r.method

/-- Serves a request; none if the connection ends without an answer. Any path may be asked whether it may
be requested from elsewhere. -/
def serve (m : Moment) (r : Request) : StateM Gateway (Option Answer) := do
  if r.method = .options then return some { status := 200 }
  let answer ← match Route.ofSegments? r.segments with
    | none => pure (some { status := 404 })
    | some route =>
      match ← (serveRoute m r route).run with
      | .ok answer => pure (some answer)
      | .error refusal => pure refusal.toAnswer?
  return if r.method = .head then answer.map Answer.withoutContent else answer

end Gateway

end AuditTrail
