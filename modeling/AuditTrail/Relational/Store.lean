import AuditTrail.Relational.Statement
import AuditTrail.Store
/-!
# Records and tenants in a relational database

Events are inserted in statements of at most a hundred, those of a batch within one transaction. Every statement on
events names the tenant.
-/

namespace AuditTrail.Relational

/-! ## Records -/

def eventColumns : List String :=
  ["tenant_id", "id", "user_id", "session_id", "ip_address", "user_agent", "action", "resource_type",
    "resource_id", "severity", "message", "before_state", "after_state", "metadata", "event_time",
    "created_at", "updated_at"]

def eventColumnList : String := ", ".intercalate eventColumns

/-- The values of the columns for an event. -/
def eventValues (tenant : TenantId) (e : Event) : List Value :=
  [.text tenant.name, .text e.id, .text e.userId, .text e.sessionId, .text e.ipAddress,
    .text e.userAgent, .text e.action, .text e.resourceType, .text e.resourceId,
    .text e.severity.word, .text e.message, .optionalBlob e.beforeState, .optionalBlob e.afterState,
    .optionalBlob e.metadata, .time e.timestamp, .time e.createdAt, .time e.updatedAt]

def placeholder (n : Nat) : String := "$" ++ toString n

/-- The placeholders of the columns of one event, counted on from a number. -/
def placeholders (start : Nat) : String :=
  "(" ++ ", ".intercalate ((List.range eventColumns.length).map fun i => placeholder (start + i + 1)) ++
    ")"

def insertStatement (tenant : TenantId) (events : List Event) : Statement where
  sql :=
    "INSERT INTO audit_events (" ++ eventColumnList ++ ") VALUES " ++
      ", ".intercalate
        ((List.range events.length).map fun i => placeholders (i * eventColumns.length))
  values := events.flatMap (eventValues tenant)

/-- The events that a statement inserts at most. -/
def chunkSize : Nat := 100

/-- A list in parts of one size; the last part may be smaller. -/
def chunks {α : Type} (size : Nat) : Nat → List α → List (List α)
  | _, [] => []
  | 0, xs => [xs]
  | fuel + 1, xs => xs.take size :: chunks size fuel (xs.drop size)

/-- The events of a batch in the parts that are inserted together. -/
def eventChunks (events : List Event) : List (List Event) := chunks chunkSize events.length events

def selectEvents : String := "SELECT " ++ eventColumnList ++ " FROM audit_events "

def getStatement (tenant : TenantId) (id : String) : Statement :=
  ⟨selectEvents ++ "WHERE tenant_id = $1 AND id = $2", [.text tenant.name, .text id]⟩

/-- A condition that holds when its value is absent. -/
def optionalCondition (n : Nat) (type comparison : String) : String :=
  " AND (" ++ placeholder n ++ "::" ++ type ++ " IS NULL OR " ++ comparison ++ " " ++ placeholder n ++
    ")"

/-- The statement for the page that a filter asks for. -/
def listStatement (tenant : TenantId) (f : Filter) : Statement where
  sql :=
    selectEvents ++ "WHERE tenant_id = $1" ++
      optionalCondition 2 "TEXT" "user_id =" ++
      optionalCondition 3 "TEXT" "action =" ++
      optionalCondition 4 "TEXT" "resource_type =" ++
      optionalCondition 5 "TEXT" "resource_id =" ++
      optionalCondition 6 "TEXT" "severity =" ++
      optionalCondition 7 "TEXT" "session_id =" ++
      optionalCondition 8 "TEXT" "ip_address =" ++
      optionalCondition 9 "TEXT" "user_agent =" ++
      optionalCondition 10 "TEXT" "message ILIKE" ++
      optionalCondition 11 "TIMESTAMPTZ" "event_time >=" ++
      optionalCondition 12 "TIMESTAMPTZ" "event_time <=" ++
      " ORDER BY event_time DESC, id ASC LIMIT $13 OFFSET $14"
  values :=
    [.text tenant.name, .optionalText f.userId, .optionalText f.action,
      .optionalText f.resourceType, .optionalText f.resourceId,
      .optionalText (f.severity.map Severity.word), .optionalText f.sessionId,
      .optionalText f.ipAddress, .optionalText f.userAgent,
      .optionalText (f.message.map Like.containing), .optionalTime f.startTime,
      .optionalTime f.endTime, .int f.window.limit, .int f.window.offset]

/-- The statement that deletes one event. -/
def deleteStatement (tenant : TenantId) (id : String) : Statement :=
  ⟨"DELETE FROM audit_events WHERE tenant_id = $1 AND id = $2", [.text tenant.name, .text id]⟩

/-- The statement that deletes the events from before an instant. -/
def purgeStatement (tenant : TenantId) (cutoff : Instant) : Statement :=
  ⟨"DELETE FROM audit_events WHERE tenant_id = $1 AND event_time < $2",
    [.text tenant.name, .time cutoff]⟩

section

variable {m : Type → Type} [Monad m] (db : Database m)

def insertFailure (r : Report) : Failure :=
  if r.isRepeatedKey then .conflict "audit event id already exists"
  else .storeWrite ("failed to insert audit events: " ++ r.words)

def insertEvents (tenant : TenantId) (events : List Event) : Action m Unit := do
  let _ ← asking (db.execute (insertStatement tenant events)) insertFailure

def createEvent (ctx : Context) (e : Event) : Action m Unit := do
  let tenant ← ctx.requireTenant
  RecordStore.checkOwner tenant [e]
  insertEvents db tenant [e]

def createEvents (ctx : Context) (events : List Event) : Action m Unit := do
  let tenant ← ctx.requireTenant
  RecordStore.checkOwner tenant events
  asking db.startTransaction fun r => .storeWrite ("failed to start transaction: " ++ r.words)
  (eventChunks events).forM (insertEvents db tenant)
  asking db.commit fun r => .storeWrite ("failed to commit audit events: " ++ r.words)

def getEvent (ctx : Context) (id : String) : Action m (Option Event) := do
  let tenant ← ctx.requireTenant
  let rows ← asking (db.events (getStatement tenant id)) fun r =>
    .storeRead ("failed to load audit event: " ++ r.words)
  rows.head?.mapM fun r => (r.toEvent : Except Failure Event)

def listEvents (ctx : Context) (f : Filter) : Action m (List Event) := do
  let tenant ← ctx.requireTenant
  let rows ← asking (db.events (listStatement tenant f)) fun r =>
    .storeRead ("failed to list audit events: " ++ r.words)
  rows.mapM fun r => (r.toEvent : Except Failure Event)

/-- Takes an event out; whether there was one. -/
def deleteEvent (ctx : Context) (id : String) : Action m Bool := do
  let tenant ← ctx.requireTenant
  let n ← asking (db.execute (deleteStatement tenant id)) fun r =>
    .storeWrite ("failed to delete audit event: " ++ r.words)
  return 0 < n

/-- Takes out the events from before an instant, and counts them. -/
def purgeEvents (ctx : Context) (cutoff : Instant) : Action m Nat := do
  let tenant ← ctx.requireTenant
  asking (db.execute (purgeStatement tenant cutoff)) fun r =>
    .storeWrite ("failed to purge audit events: " ++ r.words)

def ping : Action m Unit := do
  let _ ← asking (db.execute ⟨"SELECT 1", []⟩) fun r =>
    .storeRead ("postgres unreachable: " ++ r.words)

end

/-! ## Tenants -/

def selectTenants : String := "SELECT id, name, api_key, created_at, updated_at FROM tenants "

def insertTenantStatement (t : Tenant) : Statement :=
  ⟨"INSERT INTO tenants (id, name, api_key, created_at, updated_at) VALUES ($1, $2, $3, $4, $5)",
    [.text t.id.name, .text t.name, .text t.apiKey, .time t.createdAt, .time t.updatedAt]⟩

def updateTenantStatement (t : Tenant) : Statement :=
  ⟨"UPDATE tenants SET name = $2, api_key = $3, updated_at = $4 WHERE id = $1",
    [.text t.id.name, .text t.name, .text t.apiKey, .time t.updatedAt]⟩

section

variable {m : Type → Type} [Monad m] (db : Database m)

/-- Adds a tenant whose identifier and key are free. -/
def createTenant (t : Tenant) : Action m Unit := do
  let _ ← asking (db.execute (insertTenantStatement t)) fun r =>
    if r.isRepeatedKey then
      .conflict ("tenant '" ++ t.id.name ++ "' or its API key already exists")
    else .storeWrite ("failed to save tenant: " ++ r.words)

/-- The first of the tenants that a statement finds. -/
def findTenant (s : Statement) (failed : String) : Action m (Option Tenant) := do
  let rows ← asking (db.tenants s) fun r => .storeRead (failed ++ r.words)
  rows.head?.mapM fun r => (r.toTenant : Except Failure Tenant)

def getTenant (id : TenantId) : Action m (Option Tenant) :=
  findTenant db ⟨selectTenants ++ "WHERE id = $1", [.text id.name]⟩ "failed to load tenant: "

def tenantOfKey (key : String) : Action m (Option Tenant) :=
  findTenant db ⟨selectTenants ++ "WHERE api_key = $1", [.text key]⟩ "failed to resolve API key: "

/-- The tenants in the order of their registration. -/
def listTenants : Action m (List Tenant) := do
  let rows ← asking (db.tenants ⟨selectTenants ++ "ORDER BY created_at, id", []⟩) fun r =>
    .storeRead ("failed to list tenants: " ++ r.words)
  rows.mapM fun r => (r.toTenant : Except Failure Tenant)

/-- Replaces a registered tenant; the key has to be free or its own. -/
def updateTenant (t : Tenant) : Action m Unit := do
  let n ← asking (db.execute (updateTenantStatement t)) fun r =>
    if r.isRepeatedKey then .conflict "API key already in use"
    else .storeWrite ("failed to update tenant: " ++ r.words)
  if n = 0 then throw (.notFound ("tenant " ++ t.id.name))

/-- Takes a tenant out; whether there was one. -/
def deleteTenant (id : TenantId) : Action m Bool := do
  let n ← asking (db.execute ⟨"DELETE FROM tenants WHERE id = $1", [.text id.name]⟩) fun r =>
    .storeWrite ("failed to delete tenant: " ++ r.words)
  return 0 < n

end

end AuditTrail.Relational
