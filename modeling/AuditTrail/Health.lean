import AuditTrail.Json.Basic
/-!
# Health

Three backends, each up or down. Only the record store is needed to accept writes; without one of the
others the service is degraded.
-/

namespace AuditTrail

inductive Component where
  | recordStore
  | searchIndex
  | queue
  deriving DecidableEq, Repr

namespace Component

def name : Component → String
  | recordStore => "record_store"
  | searchIndex => "search_index"
  | queue => "queue"

def all : List Component := [recordStore, searchIndex, queue]

end Component

/-- Whether a backend is up, and what it said when it was last found down. -/
structure Condition where
  up : Bool
  report : Option String
  deriving DecidableEq, Repr

inductive HealthStatus where
  | healthy
  | degraded
  | unhealthy
  deriving DecidableEq, Repr

namespace HealthStatus

def word : HealthStatus → String
  | healthy => "healthy"
  | degraded => "degraded"
  | unhealthy => "unhealthy"

def isServing : HealthStatus → Bool
  | healthy | degraded => true
  | unhealthy => false

end HealthStatus

structure Health where
  recordStore : Condition
  searchIndex : Condition
  queue : Condition
  deriving DecidableEq, Repr

namespace Health

def unknown : Health := ⟨⟨false, none⟩, ⟨false, none⟩, ⟨false, none⟩⟩

def allUp : Health := ⟨⟨true, none⟩, ⟨true, none⟩, ⟨true, none⟩⟩

instance : Inhabited Health := ⟨unknown⟩

def get (h : Health) : Component → Condition
  | .recordStore => h.recordStore
  | .searchIndex => h.searchIndex
  | .queue => h.queue

def set (h : Health) (c : Component) (condition : Condition) : Health :=
  match c with
  | .recordStore => { h with recordStore := condition }
  | .searchIndex => { h with searchIndex := condition }
  | .queue => { h with queue := condition }

def markUp (h : Health) (c : Component) : Health := h.set c ⟨true, none⟩

def markDown (h : Health) (c : Component) (report : String) : Health := h.set c ⟨false, some report⟩

def isReady (h : Health) : Bool := h.recordStore.up

def status (h : Health) : HealthStatus :=
  if !h.recordStore.up then .unhealthy
  else if Component.all.all fun c => (h.get c).up then .healthy
  else .degraded

/-- The components with their conditions. -/
def componentsJson (h : Health) : Json :=
  .array <| Component.all.map fun c =>
    .object [("name", .text c.name), ("healthy", .bool (h.get c).up),
      ("message", .optionalText (h.get c).report)]

def toJson (h : Health) : Json :=
  .object [("status", .text h.status.word), ("components", h.componentsJson)]

end Health

end AuditTrail
