import AuditTrail.Event.Request
import AuditTrail.Pipeline.Basic
/-!
# Writing events and managing tenants

A write goes to the record store first and is then published for the search index. When publishing fails the write
stands and its receipt says so. A new tenant gets a partition of the search index in advance, which may fail. Deleting
a tenant deletes its part of the index and leaves its events in the record store.
-/

namespace AuditTrail

/-! ## Receipts -/

/-- Whether the part of an operation that may fail went through. -/
inductive Outcome where
  | ok
  | degraded (reason : String)
  deriving DecidableEq, Repr

namespace Outcome

def isDegraded : Outcome → Bool
  | ok => false
  | degraded _ => true

/-- What callers are told about the search index. -/
def indexing : Outcome → String
  | ok => "queued"
  | degraded _ => "degraded"

def toJson : Outcome → Json
  | ok => .object [("status", .text "ok")]
  | degraded reason => .object [("status", .text "degraded"), ("reason", .text reason)]

end Outcome

/-- The identifiers of the events that a write was about, and how it went. -/
structure Receipt where
  ids : List String
  outcome : Outcome
  deriving DecidableEq, Repr

namespace Receipt

def toAnswer (r : Receipt) : Json :=
  .object <|
    [("ids", .array (r.ids.map .text)), ("count", .nat r.ids.length),
      ("indexing", .text r.outcome.indexing)] ++
    match r.outcome with
    | .ok => []
    | .degraded reason => [("reason", .text reason)]

end Receipt

/-! ## Writes -/

namespace Pipeline

/-- The events that a batch has at most. -/
def maxBatch : Nat := 1000

def validated {α : Type} (accepted : Except Failure α) : Action α := do
  match accepted with
  | .ok a => return a
  | .error f =>
    count .eventsFailedValidation 1
    throw f

/-- Writes events to the record store and counts them. -/
def persist (ctx : Context) (events : List Event) : Action Unit := do
  try
    createRecords ctx events
  catch failure =>
    count .storeWriteErrors 1
    throw failure
  count .eventsPersisted events.length

/-- The outcome of a write whose message was not published. -/
def degraded (failure : Failure) : Action Outcome := do
  count .publishDegraded 1
  return .degraded failure.message

/-- Publishes a message; a failure to do so is an outcome. -/
def publish (message : Except Failure Message) : Action Outcome := do
  try
    sendMessage (← message)
    count .messagesPublished 1
    return .ok
  catch failure =>
    degraded failure

def createEvent (now : Instant) (freshId : String) (ctx : Context) (request : NewEvent) :
    Action Receipt := do
  let tenant ← ctx.writeTenant
  count .eventsReceived 1
  let e ← validated (request.accept tenant now freshId)
  persist ctx [e]
  let outcome ← publish (.ok (.index e now))
  return ⟨[e.id], outcome⟩

/-- The first event of a list whose identifier an event before it has. -/
def repeated? (seen : List String) : List Event → Option Event
  | [] => none
  | e :: rest => if seen.contains e.id then some e else repeated? (e.id :: seen) rest

/-- Refuses events that share an identifier. -/
def checkDistinct (events : List Event) : Except Failure Unit :=
  match repeated? [] events with
  | some e => .error (.invalid (.repeatedId e.id))
  | none => .ok ()

/-- Refuses a batch that is empty or too large. -/
def checkBatch (size : Nat) : Except Failure Unit :=
  if size = 0 then .error (.invalid .emptyBatch)
  else if maxBatch < size then .error (.invalid (.largeBatch size))
  else .ok ()

/-- Records a batch of events, all or none, and publishes it as one message. -/
def createEvents (now : Instant) (freshIds : Nat → String) (ctx : Context)
    (requests : List NewEvent) : Action Receipt := do
  let tenant ← ctx.writeTenant
  checkBatch requests.length
  count .eventsReceived requests.length
  let events ← validated (NewEvent.acceptAll requests tenant now freshIds)
  validated (checkDistinct events)
  persist ctx events
  let outcome ← publish (Message.bulkIndex tenant events now)
  return ⟨events.map Event.id, outcome⟩

/-- Takes an event out of the record store. -/
def deleteEvent (now : Instant) (ctx : Context) (id : String) : Action Receipt := do
  let tenant ← ctx.writeTenant
  let missing := Failure.notFound ("audit event " ++ id)
  if (← getRecord ctx id).isNone then throw missing
  if !(← deleteRecord ctx id) then throw missing
  let outcome ← publish (.ok (.delete tenant id now))
  return ⟨[id], outcome⟩

/-! ## Tenants -/

/-- Does something whose failure does not matter. -/
def attempt (action : Action Unit) : Action Unit := do
  try action catch _ => pure ()

def registerTenant (now : Instant) (freshId keyUuid : String) (request : NewTenant) :
    Action Tenant := do
  let t ← Tenant.register request now freshId keyUuid
  createTenant t
  attempt (createPartition t.id now)
  return t

def requireTenant (id : TenantId) : Action Tenant := do
  match ← getTenant id with
  | some t => return t
  | none => throw (.notFound ("tenant " ++ id.name))

def renameTenant (now : Instant) (id : TenantId) (request : TenantUpdate) : Action Tenant := do
  Tenant.checkName request.name
  let t := (← requireTenant id).rename request.name now
  updateTenant t
  return t

/-- Deletes a tenant and its part of the index; a failure of the latter is an outcome. -/
def removeTenant (id : TenantId) : Action Outcome := do
  if !(← deleteTenant id) then throw (.notFound ("tenant " ++ id.name))
  try
    dropIndex id
    return .ok
  catch failure =>
    return .degraded failure.message

end Pipeline

end AuditTrail
