import AuditTrail.Event.Collection
import AuditTrail.Filter.Basic
import AuditTrail.Message
/-!
# The search index

The index holds a copy of the events as documents, in one partition for each tenant and calendar month. An event can
be put into it only when its partition is there, so what a message asks for is done in two steps: the partitions of its
events are made, then the events are put into the index; or an event is taken out of it.
-/

namespace AuditTrail

/-! ## Partitions -/

/-- The partition of a tenant for a month. -/
structure Partition where
  tenant : TenantId
  year : Int
  month : Nat
  deriving DecidableEq

namespace Partition

/-- The partition that an instant falls into. -/
def ofInstant (tenant : TenantId) (t : Instant) : Partition :=
  ⟨tenant, t.date.year, t.date.month⟩

def precedes (a b : Partition) : Bool :=
  TenantId.lt a.tenant b.tenant ||
    (a.tenant == b.tenant &&
      (decide (a.year < b.year) || (a.year == b.year && decide (a.month < b.month))))

/-- A year in at least four characters, its sign included. -/
def yearChars (year : Int) : List Char :=
  if year < 0 then '-' :: padded 3 year.natAbs else padded 4 year.natAbs

/-- What the names of all partitions of a tenant begin with. -/
def tenantMark (pre : String) (tenant : TenantId) : String := pre ++ "_" ++ tenant.name ++ "_"

def name (p : Partition) (pre : String) : String :=
  tenantMark pre p.tenant ++ String.ofList (yearChars p.year ++ padded 2 p.month)

def start? (p : Partition) : Option Instant := Instant.ofMonth? p.year p.month

/-- Puts a partition into a list without repetitions, in order. -/
def insert (p : Partition) : List Partition → List Partition
  | [] => [p]
  | q :: rest =>
    if p = q then q :: rest
    else if precedes p q then p :: q :: rest
    else q :: insert p rest

/-- The partitions that the events of a tenant fall into, each once, in order. -/
def covering (tenant : TenantId) (events : List Event) : List Partition :=
  events.foldl (fun ps e => insert (ofInstant tenant e.timestamp) ps) []

/-- The pattern that the names of a tenant's partitions match. -/
def tablePattern (pre : String) (tenant : TenantId) : String :=
  "^" ++ tenantMark pre tenant ++ "[0-9]\x7b6\x7d$"

end Partition

/-! ## Documents -/

structure SearchIndex where
  documents : EventTable
  /-- The partitions in their order, each once. -/
  partitions : List Partition

namespace SearchIndex

def empty : SearchIndex := ⟨.empty, []⟩

instance : Inhabited SearchIndex := ⟨empty⟩

def partitionsOf (s : SearchIndex) (tenant : TenantId) : List Partition :=
  s.partitions.filter fun p => p.tenant = tenant

/-- Makes the partition of a tenant that an instant falls into. -/
def createPartition (s : SearchIndex) (tenant : TenantId) (asOf : Instant) : SearchIndex :=
  { s with partitions := Partition.insert (Partition.ofInstant tenant asOf) s.partitions }

/-- Refuses an event of another tenant and one whose partition is not there. -/
def checkEvent (s : SearchIndex) (tenant : TenantId) (e : Event) : Except Failure Unit :=
  let partition := Partition.ofInstant tenant e.timestamp
  if e.tenant ≠ tenant then
    .error (.projection ("event " ++ e.id ++ " does not belong to tenant " ++ tenant.name))
  else if partition ∈ s.partitions then .ok ()
  else .error (.projection ("index partition " ++ partition.name "memory" ++ " does not exist"))

/-- Puts events into the index, all or none; of two with one identifier the later one counts. -/
def put (s : SearchIndex) (ctx : Context) (events : List Event) : Except Failure SearchIndex := do
  let tenant ← ctx.requireTenant
  events.forM (s.checkEvent tenant)
  return { s with documents := s.documents.putAll events }

/-- Takes a document out, if it is there. -/
def delete (s : SearchIndex) (ctx : Context) (id : String) : Except Failure SearchIndex := do
  let tenant ← ctx.requireTenant
  return { s with documents := s.documents.erase tenant id }

/-- The page of the tenant's documents that a filter asks for. -/
def search (s : SearchIndex) (ctx : Context) (f : Filter) : Except Failure (List Event) := do
  let tenant ← ctx.requireTenant
  return f.select (s.documents.ofTenant tenant)

/-- Takes out the partitions and documents of a tenant. -/
def drop (s : SearchIndex) (tenant : TenantId) : SearchIndex :=
  ⟨s.documents.eraseTenant tenant, s.partitions.filter fun p => p.tenant ≠ tenant⟩

end SearchIndex

/-! ## Messages -/

/-- An index that messages are projected into. -/
structure IndexTarget (m : Type → Type) where
  create : TenantId → Instant → ExceptT Failure m Unit
  index : Context → Event → ExceptT Failure m Unit
  bulkIndex : Context → List Event → ExceptT Failure m Unit
  delete : Context → String → ExceptT Failure m Unit

namespace IndexTarget

variable {m : Type → Type} [Monad m] (target : IndexTarget m)

def createPartition (p : Partition) : ExceptT Failure m Unit :=
  match p.start? with
  | some start => target.create p.tenant start
  | none =>
    throw (.projection ("invalid partition month " ++ String.ofList (Json.intChars p.year) ++ "-" ++
      toString p.month))

/-- Puts events into the index, one as such and several as a batch. -/
def put (ctx : Context) : List Event → ExceptT Failure m Unit
  | [e] => target.index ctx e
  | events => target.bulkIndex ctx events

/-- Does what a message asks for, and counts the events that were put into the index. -/
def project (message : Message) : ExceptT Failure m Nat := do
  let ctx := Context.system message.tenant ""
  match ← (message.action : Except Failure IndexAction) with
  | .upsert events =>
    (Partition.covering message.tenant events).forM target.createPartition
    target.put ctx events
    return events.length
  | .delete id =>
    target.delete ctx id
    return 0

end IndexTarget

end AuditTrail
