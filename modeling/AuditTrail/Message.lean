import AuditTrail.Event.Basic
/-!
# Propagation messages

A message tells the search index what has changed in the record store: one event or several to be put
into the index, or one to be taken out of it. Every message is about one tenant. Messages travel as JSON
texts and are checked again when they arrive.
-/

namespace AuditTrail

inductive MessageKind where
  | index
  | bulkIndex
  | delete
  deriving DecidableEq, Repr

namespace MessageKind

def word : MessageKind → String
  | index => "INDEX"
  | bulkIndex => "BULK_INDEX"
  | delete => "DELETE"

def ofWord? : String → Option MessageKind
  | "INDEX" => some index
  | "BULK_INDEX" => some bulkIndex
  | "DELETE" => some delete
  | _ => none

end MessageKind

inductive IndexAction where
  | upsert (events : List Event)
  | delete (id : String)

structure Message where
  kind : MessageKind
  tenant : TenantId
  events : List Event
  eventId : Option String
  sentAt : Instant

namespace Message

/-- What is wrong with the shape of a message: the number of its events, or no identifier to delete. -/
def shapeProblem? (m : Message) : Option Problem :=
  match m.kind with
  | .index => if m.events.length ≠ 1 then some .notOneEvent else none
  | .bulkIndex => if m.events.isEmpty then some .noEvents else none
  | .delete => if (m.eventId.getD "").isEmpty then some .noEventId else none

/-- The first thing that is wrong with a message: its shape, or an event of another tenant. -/
def problem? (m : Message) : Option Problem :=
  match m.shapeProblem? with
  | some problem => some problem
  | none =>
    (m.events.find? fun e => e.tenant ≠ m.tenant).map fun e =>
      Problem.foreignEvent e.id e.tenant m.tenant

/-- A message with which nothing is wrong. -/
def check (m : Message) : Except Failure Message :=
  m.problem?.elim (.ok m) fun problem => .error (.invalid problem)

def index (e : Event) (now : Instant) : Message := ⟨.index, e.tenant, [e], none, now⟩

/-- Several events to be put into the index. -/
def bulkIndex (tenant : TenantId) (events : List Event) (now : Instant) : Except Failure Message :=
  check ⟨.bulkIndex, tenant, events, none, now⟩

/-- An event to be taken out of the index. -/
def delete (tenant : TenantId) (id : String) (now : Instant) : Message :=
  ⟨.delete, tenant, [], some id, now⟩

/-- The number of events that a message is about. -/
def size (m : Message) : Nat :=
  match m.kind with
  | .delete => 1
  | _ => m.events.length

def action (m : Message) : Except Failure IndexAction := do
  let m ← m.check
  match m.kind with
  | .delete => return .delete (m.eventId.getD "")
  | _ => return .upsert m.events

open Json

def read : Reader Message := fun depth t => do
  let f ← fields ["type", "tenant_id", "logs", "log_id", "timestamp"] depth t
  let kind ← f.required "type" (.word MessageKind.ofWord?)
  let tenant ← f.required "tenant_id" .tenantId
  let events ← f.withDefault "logs" (.list Event.read) []
  let eventId ← f.withDefault "log_id" (.optional .text) none
  let sentAt ← f.required "timestamp" .instant
  some { kind, tenant, events, eventId, sentAt }

/-- A message with its fields in order; events and the identifier are left out when there are none. -/
def toJson (m : Message) : Json :=
  object <|
    [("type", text m.kind.word), ("tenant_id", text m.tenant.name)] ++
    (if m.events.isEmpty then [] else [("logs", array (m.events.map Event.toJson))]) ++
    member? "log_id" (m.eventId.map text) ++
    [("timestamp", instant m.sentAt)]

def encode (m : Message) : String := m.toJson.compact

/-- The sound message that a text on the queue holds. -/
def decode (body : String) : Except Failure Message :=
  (read.ofText body).elim (.error .malformed) check

end Message

/-- A message as the queue hands it out. -/
structure Delivery where
  body : String
  /-- The receipt that acknowledges this delivery and no other. -/
  token : String
  /-- How often the message has been handed out, this time included. -/
  count : Nat
  deriving DecidableEq, Repr

end AuditTrail
