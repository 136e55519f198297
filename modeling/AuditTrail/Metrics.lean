import AuditTrail.Json.Basic
/-!
# Metrics

Counters, gauges and histograms of 64 bits. Counters wrap around; gauges stop at zero.
-/

namespace AuditTrail

inductive Counter where
  | eventsReceived
  | eventsPersisted
  | eventsFailedValidation
  | storeWriteErrors
  | rateLimitedRequests
  | messagesPublished
  | publishDegraded
  | messagesReceived
  | messagesAcked
  | messagesDiscarded
  | messagesRedelivered
  | projectionFailures
  | ackFailures
  | eventsIndexed
  | queriesRecordStore
  | queriesSearchIndex
  | retentionPurged
  deriving DecidableEq, Repr

namespace Counter

def name : Counter → String
  | eventsReceived => "events_received"
  | eventsPersisted => "events_persisted"
  | eventsFailedValidation => "events_failed_validation"
  | storeWriteErrors => "store_write_errors"
  | rateLimitedRequests => "rate_limited_requests"
  | messagesPublished => "messages_published"
  | publishDegraded => "publish_degraded"
  | messagesReceived => "messages_received"
  | messagesAcked => "messages_acked"
  | messagesDiscarded => "messages_discarded"
  | messagesRedelivered => "messages_redelivered"
  | projectionFailures => "projection_failures"
  | ackFailures => "ack_failures"
  | eventsIndexed => "events_indexed"
  | queriesRecordStore => "queries_record_store"
  | queriesSearchIndex => "queries_search_index"
  | retentionPurged => "retention_purged"

def all : List Counter :=
  [eventsReceived, eventsPersisted, eventsFailedValidation, storeWriteErrors, rateLimitedRequests,
    messagesPublished, publishDegraded, messagesReceived, messagesAcked, messagesDiscarded,
    messagesRedelivered, projectionFailures, ackFailures, eventsIndexed, queriesRecordStore,
    queriesSearchIndex, retentionPurged]

end Counter

/-- A number of 64 bits that wraps around. -/
def wrapWord (n : Nat) : Nat := n % wordBound 64

/-- A counter or gauge after it was raised. -/
def raised (n amount : Nat) : Nat := wrapWord (n + amount)

/-- A gauge after it was lowered by one. -/
def lowered (n : Nat) : Nat := n - 1

/-- The counters of a process and its two gauges. -/
structure Metrics where
  /-- The counters in the order of `Counter.all`. -/
  counts : List Nat
  activeWorkerUnits : Nat
  queueDepth : Nat
  deriving DecidableEq, Repr

namespace Metrics

def zero : Metrics := ⟨Counter.all.map fun _ => 0, 0, 0⟩

instance : Inhabited Metrics := ⟨zero⟩

def get (m : Metrics) (c : Counter) : Nat := m.counts.getD c.ctorIdx 0

def add (m : Metrics) (c : Counter) (n : Nat) : Metrics :=
  { m with counts := m.counts.set c.ctorIdx (raised (m.get c) n) }

def readings (m : Metrics) : List (String × Nat) :=
  Counter.all.map (fun c => (c.name, m.get c)) ++
    [("active_worker_units", m.activeWorkerUnits), ("queue_depth", m.queueDepth)]

end Metrics

/-- How many values fell under each bound, how many there were and what they sum to. -/
structure Histogram where
  counts : List Nat
  sum : Nat
  count : Nat
  deriving DecidableEq, Repr

namespace Histogram

def bounds : List Nat := [1, 5, 10, 25, 50, 100, 250, 500, 1000, 5000, 10000]

def empty : Histogram := ⟨bounds.map fun _ => 0, 0, 0⟩

/-- The first bound that a value does not exceed; the last one for larger values. -/
def slot (ms : Nat) : Nat := min (bounds.findIdx fun b => ms ≤ b) (bounds.length - 1)

def observe (h : Histogram) (ms : Nat) : Histogram where
  counts := h.counts.modify (slot ms) fun n => raised n 1
  sum := raised h.sum ms
  count := raised h.count 1

def buckets (h : Histogram) : List (Nat × Nat) := bounds.zip h.counts

/-- The quotient of sum and count, each rounded first. -/
def mean (h : Histogram) : Binary64 :=
  if h.count = 0 then .zero false
  else
    (do (← Binary64.ofNat h.sum).div (← Binary64.ofNat h.count)).getD (.zero false)

def toJson (h : Histogram) : Json :=
  .object [("count", .nat h.count), ("sum", .nat h.sum), ("mean", .number (.float h.mean)),
    ("buckets", .array (h.buckets.map fun (bound, n) => .array [.nat bound, .nat n]))]

end Histogram

end AuditTrail
