import AuditTrail.Http
import AuditTrail.Pipeline.Basic
import AuditTrail.Settings.Basic
/-!
# The gateway

The gateway stands between HTTP requests and the pipeline. It finds the tenant of a key, which it then
remembers for some time, limits the requests of each tenant, and knows the key of the administrators.
-/

namespace AuditTrail

structure Gateway where
  pipeline : Pipeline
  /-- The tenants of keys as they were found, and when that was, in nanoseconds. -/
  known : Table String (Tenant × Nat)
  /-- The nanoseconds that the tenant of a key is remembered. -/
  memory : Nat
  limiter : RateLimiter
  adminKey : Option String

/-- What a request meets: the time of day, the nanoseconds since the gateway started, and identifiers
that nobody has used. -/
structure Moment where
  now : Instant
  elapsed : Nat
  fresh : Nat → String

inductive Refusal where
  | failure (f : Failure)
  /-- Too many requests; how many seconds to wait. -/
  | busy (seconds : Nat)
  /-- A path or a query that cannot be read. -/
  | unreadable
  | tooLarge
  | notJson
  deriving DecidableEq

/-- Something that is done for a request. -/
abbrev Serving (α : Type) := ExceptT Refusal (StateM Gateway) α

namespace Refusal

open Http

def errorAnswer (status : Nat) (code message : String) (retryAfter : Option Nat) : Answer :=
  { Answer.json status
      (.object [("error", .object [("code", .text code), ("message", .text message)])]) with
    headers := retryAfter.toList.map fun seconds => ("retry-after", toString seconds) }

/-- The answer to a request that is refused; none if the connection ends without one. -/
def toAnswer? : Refusal → Option Answer
  | failure .outOfRange => none
  | failure f => some (errorAnswer f.status f.code f.message f.retryAfter)
  | busy seconds => some (errorAnswer 429 "RATE_001" "Too many requests" (some seconds))
  | unreadable => some (.plain 400 "Cannot read the path or the query")
  | tooLarge => some (.plain 413 "The content is too large")
  | notJson => some (errorAnswer 400 "VALID_001" "Invalid JSON" none)

end Refusal

namespace Gateway

def new (pipeline : Pipeline) (auth : AuthSettings) (limit : RateLimit) : Gateway where
  pipeline
  known := .empty
  memory := auth.cacheSeconds * 1000000000
  limiter := .new limit
  adminKey := auth.adminKey.filter fun key => !key.isEmpty

def withPipeline {α : Type} (action : Action α) : ExceptT Failure (StateM Gateway) α := fun g =>
  let (result, pipeline) := action.run g.pipeline
  (result, { g with pipeline })

/-- Serves a request by doing something with the pipeline. -/
def perform {α : Type} (action : Action α) : Serving α := (withPipeline action).adapt .failure

def accept {α : Type} (result : Except Failure α) : Serving α :=
  match result with
  | .ok a => return a
  | .error f => throw (.failure f)

/-- The tenant of a key, if it is still remembered. -/
def remembered? (g : Gateway) (key : String) (elapsed : Nat) : Option Tenant := do
  let (tenant, found) ← g.known.get? key
  if elapsed < found + g.memory then some tenant else none

/-- The tenant of a key. Keys without a tenant are not remembered. -/
def ownerOf (key : ApiKey) (elapsed : Nat) : ExceptT Failure (StateM Gateway) Tenant := do
  match (← get).remembered? key.text elapsed with
  | some tenant => return tenant
  | none =>
    match ← withPipeline (Pipeline.findTenant key.text) with
    | some tenant =>
      modify fun g => { g with known := g.known.insert key.text (tenant, elapsed) }
      return tenant
    | none => throw (.unauthenticated .invalid "API key does not belong to any tenant")

def forget (key : String) : Serving Unit := modify fun g => { g with known := g.known.erase key }

def takeToken (tenant : TenantId) (elapsed : Nat) : Serving Unit := do
  let g ← get
  let (verdict, limiter) := g.limiter.check tenant.name elapsed
  set { g with limiter }
  match verdict with
  | .ok _ => return
  | .error seconds =>
    perform (Pipeline.count .rateLimitedRequests 1)
    throw (.busy seconds)

/-- The identifier of a request: its own, or a fresh one. -/
def requestId (m : Moment) (r : Http.Request) : String :=
  (((r.header "x-request-id").map Text.trim).filter fun s => !s.isEmpty).getD (m.fresh 0)

/-- The context of a tenant that presents its key. -/
def authenticate (m : Moment) (r : Http.Request) : Serving Context := do
  let key ← accept (ApiKey.extract (r.header "authorization") (r.header "x-api-key"))
  let tenant ← (ownerOf key m.elapsed).adapt Refusal.failure
  takeToken tenant.id m.elapsed
  return .ofTenant tenant.id (requestId m r)

/-- Refuses a request that does not present the key of the administrators. -/
def authorize (r : Http.Request) : Serving Unit := do
  match ((r.header "x-admin-key").map Text.trim).filter fun s => !s.isEmpty with
  | none => throw (.failure (.unauthenticated .missing "admin key is required"))
  | some presented =>
    if (← get).adminKey ≠ some presented then
      throw (.failure (.forbidden "admin key is not valid"))

end Gateway

end AuditTrail
