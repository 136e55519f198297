import AuditTrail.Export
import AuditTrail.Pipeline.Basic
/-!
# Reading and purging events

A listing is served by the search index when it has criteria that the index is for, else by the record store.
Statistics and exports are made of listings. A purge takes the events of one tenant from before the cutoff of a policy
out of the record store. The retention job purges for every registered tenant; a tenant whose purge fails is skipped.
-/

namespace AuditTrail

/-! ## Statistics -/

/-- Counts by name, in the order of the names. -/
abbrev Tally := List (String × Nat)

namespace Tally

def add (name : String) : Tally → Tally
  | [] => [(name, 1)]
  | (n, k) :: rest =>
    if name = n then (n, k + 1) :: rest
    else if name < n then (name, 1) :: (n, k) :: rest
    else (n, k) :: add name rest

def count (t : Tally) (name : String) : Nat := (t.lookup name).getD 0

def ofNames (names : List String) : Tally := names.foldl (fun t n => t.add n) []

def toJson (t : Tally) : Json := .object (t.map fun (n, k) => (n, .nat k))

end Tally

structure Stats where
  total : Nat
  byAction : Tally
  bySeverity : Tally
  byResourceType : Tally
  deriving DecidableEq

namespace Stats

def ofEvents (events : List Event) : Stats where
  total := events.length
  byAction := .ofNames (events.map Event.action)
  bySeverity := .ofNames (events.map (·.severity.word))
  byResourceType := .ofNames (events.map Event.resourceType)

/-- The members of an object that holds the statistics. -/
def members (s : Stats) : List (String × Json) :=
  [("total", .nat s.total), ("by_action", s.byAction.toJson), ("by_severity", s.bySeverity.toJson),
    ("by_resource_type", s.byResourceType.toJson)]

end Stats

/-! ## Listings -/

namespace Pipeline

/-- The events that statistics are made of at most. -/
def statsSample : Int := 1000

/-- The page of events that a filter asks for. -/
def listEvents (ctx : Context) (f : Filter) : Action (List Event) := do
  let _ ← ctx.requireTenant
  match f.normalized.backend with
  | .searchIndex =>
    count .queriesSearchIndex 1
    searchDocuments ctx f.normalized
  | .recordStore =>
    count .queriesRecordStore 1
    listRecords ctx f.normalized

def getEvent (ctx : Context) (id : String) : Action Event := do
  match ← getRecord ctx id with
  | some e => return e
  | none => throw (.notFound ("audit event " ++ id))

/-- Statistics of the newest events that a filter admits, whatever its page. -/
def stats (ctx : Context) (f : Filter) : Action Stats := do
  return .ofEvents (← listEvents ctx { f with page := 1, pageSize := statsSample })

/-- A page of events as the text of a file. -/
def exportEvents (ctx : Context) (f : Filter) (format : ExportFormat) : Action String := do
  return format.render (← listEvents ctx f)

end Pipeline

/-! ## Policies -/

structure RetentionPolicy where
  days : Nat
  deriving DecidableEq, Repr

namespace RetentionPolicy

def standard : RetentionPolicy := ⟨90⟩

def ofDays (days : Nat) : Except Failure RetentionPolicy :=
  if days = 0 then .error (.invalid .retentionDays) else .ok ⟨days⟩

/-- The instant before which events are too old; none when it lies before all instants. -/
def cutoff? (p : RetentionPolicy) (now : Instant) : Option Instant := now.minusDays? p.days

end RetentionPolicy

/-! ## Purges -/

namespace Pipeline

/-- Purges the events of a tenant, and counts them. -/
def purge (now : Instant) (ctx : Context) (policy : RetentionPolicy) : Action Nat := do
  let _ ← ctx.requireTenant
  match policy.cutoff? now with
  | none => throw .outOfRange
  | some cutoff =>
    let n ← purgeRecords ctx cutoff
    count .retentionPurged n
    return n

/-- Purges for one tenant of many: a failure counts as nothing purged. -/
def purgeOrSkip (now : Instant) (policy : RetentionPolicy) (t : Tenant) : Action Nat := do
  try
    purge now (.system t.id "") policy
  catch
    | .outOfRange => throw .outOfRange
    | _ => return 0

/-- Purges for all registered tenants, and counts the purged events. -/
def runRetention (now : Instant) (policy : RetentionPolicy) : Action Nat := do
  let purged ← (← listTenants).mapM (purgeOrSkip now policy)
  return purged.foldr (· + ·) 0

end Pipeline

end AuditTrail
