import AuditTrail.Health
import AuditTrail.Index.Basic
import AuditTrail.Metrics
import AuditTrail.Outage
import AuditTrail.Queue.Basic
import AuditTrail.Store
/-!
# The pipeline

The pipeline is the four backends with what is known about them: counters, health and outages. An action
may change it and may fail; what a failed action did before it failed stays done.
-/

namespace AuditTrail

structure Pipeline where
  records : RecordStore
  registry : Registry
  index : SearchIndex
  queue : Queue
  metrics : Metrics
  health : Health
  outages : Outages
  /-- The time of the queue and of the workers, in milliseconds. -/
  clock : Nat

/-- Something that is done to a pipeline. -/
abbrev Action (α : Type) := ExceptT Failure (StateM Pipeline) α

namespace Pipeline

def new (visibility : Nat) (tokens : Nat → String) : Pipeline where
  records := .empty
  registry := .empty
  index := .empty
  queue := .new visibility tokens
  metrics := .zero
  health := .allUp
  outages := .empty
  clock := 0

def count (c : Counter) (n : Nat) : Action Unit :=
  modify fun p => { p with metrics := p.metrics.add c n }

/-- Whether a call through a seam is struck by an outage. -/
def struck (s : Seam) : Action Bool :=
  modifyGet fun p =>
    let (fails, outages) := p.outages.strike s
    (fails, { p with outages })

/-- Passes a seam, or fails when it is out of order. -/
def pass (s : Seam) : Action Unit := do
  if ← struck s then throw s.failure

/-! ## Backends -/

def createRecords (ctx : Context) (events : List Event) : Action Unit := do
  let p ← get
  let records ← p.records.create ctx events
  set { p with records }

def getRecord (ctx : Context) (id : String) : Action (Option Event) := do
  pass .storeRead
  (← get).records.get ctx id

def listRecords (ctx : Context) (f : Filter) : Action (List Event) := do
  pass .storeRead
  (← get).records.list ctx f

def deleteRecord (ctx : Context) (id : String) : Action Bool := do
  if ← struck .storeVanish then return false
  let p ← get
  let (found, records) ← p.records.delete ctx id
  set { p with records }
  return found

def purgeRecords (ctx : Context) (cutoff : Instant) : Action Nat := do
  pass .storePurge
  let p ← get
  let (n, records) ← p.records.purge ctx cutoff
  set { p with records }
  return n

def createTenant (t : Tenant) : Action Unit := do
  let p ← get
  let registry ← p.registry.create t
  set { p with registry }

def updateTenant (t : Tenant) : Action Unit := do
  let p ← get
  let registry ← p.registry.update t
  set { p with registry }

def getTenant (id : TenantId) : Action (Option Tenant) := do
  return (← get).registry.get? id

def deleteTenant (id : TenantId) : Action Bool :=
  modifyGet fun p =>
    let (found, registry) := p.registry.delete id
    (found, { p with registry })

def listTenants : Action (List Tenant) := do
  pass .tenantsList
  return (← get).registry.list

def findTenant (key : String) : Action (Option Tenant) := do
  pass .tenantsResolve
  return (← get).registry.ofKey? key

def createPartition (tenant : TenantId) (asOf : Instant) : Action Unit := do
  pass .indexCreate
  modify fun p => { p with index := p.index.createPartition tenant asOf }

def putDocuments (seam : Seam) (ctx : Context) (events : List Event) : Action Unit := do
  pass seam
  let p ← get
  let index ← p.index.put ctx events
  set { p with index }

def indexEvent (ctx : Context) (e : Event) : Action Unit := putDocuments .indexWrite ctx [e]

def indexEvents (ctx : Context) (events : List Event) : Action Unit :=
  putDocuments .indexBulk ctx events

def deleteDocument (ctx : Context) (id : String) : Action Unit := do
  pass .indexDelete
  let p ← get
  let index ← p.index.delete ctx id
  set { p with index }

def searchDocuments (ctx : Context) (f : Filter) : Action (List Event) := do
  pass .indexSearch
  (← get).index.search ctx f

def dropIndex (tenant : TenantId) : Action Unit := do
  pass .indexDrop
  modify fun p => { p with index := p.index.drop tenant }

def sendMessage (m : Message) : Action Unit := do
  pass .queueSend
  modify fun p => { p with queue := p.queue.send m }

/-- Receives messages; the clock goes on to when the wait was over. -/
def receiveMessages (max wait : Nat) : Action (List Delivery) := do
  pass .queueReceive
  modifyGet fun p =>
    let ((deliveries, clock), queue) := p.queue.receive max wait p.clock
    (deliveries, { p with queue, clock })

def acknowledge (token : String) : Action Unit := do
  pass .queueAck
  let p ← get
  let queue ← p.queue.acknowledge token
  set { p with queue }

def queueDepth : Action Nat := do
  pass .queueDepth
  return (← get).queue.depth

/-! ## Health -/

/-- Records what a check of a component found. -/
def record {α : Type} (c : Component) (check : Action α) : Action (Option α) := do
  try
    let a ← check
    modify fun p => { p with health := p.health.markUp c }
    return some a
  catch failure =>
    modify fun p => { p with health := p.health.markDown c failure.message }
    return none

/-- Reads the depth of the queue into its gauge. -/
def measureQueue : Action (Option Nat) := do
  let depth ← record .queue queueDepth
  match depth with
  | some n => modify fun p => { p with metrics := { p.metrics with queueDepth := n } }
  | none => pure ()
  return depth

/-- Checks all backends. The depth of the queue is the last one known when the queue does not say. -/
def probe : Action Nat := do
  let _ ← record .recordStore (pass .storePing)
  let _ ← record .searchIndex (pass .indexPing)
  match ← measureQueue with
  | some depth => return depth
  | none => return (← get).metrics.queueDepth

end Pipeline

end AuditTrail
