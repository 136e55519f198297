import AuditTrail.Pipeline.Queries
import AuditTrail.Worker.Cycle
/-!
# The worker pool

A pool runs several units next to each other, and with them a job that reads the depth of the queue and
one that purges old events. Between the instants at which one of them has something to do nothing happens,
so a run goes from one such instant to the next. Time is counted in milliseconds.
-/

namespace AuditTrail

inductive UnitState where
  | starting
  /-- Waiting for messages, looking again at an instant and giving up at another. -/
  | waiting (look deadline : Nat)
  /-- Waiting after a failure of the queue. -/
  | pausing (resume : Nat)
  deriving DecidableEq, Repr

/-- When a unit has something to do again. -/
def UnitState.wakesAt : UnitState → Nat
  | starting => 0
  | waiting look _ => look
  | pausing resume => resume

structure WorkerPool where
  settings : WorkerSettings
  units : List UnitState
  /-- When the depth of the queue is read next. -/
  reading : Option Nat
  /-- When old events are purged next, and by which policy. -/
  purging : Option (Nat × RetentionPolicy)

namespace WorkerPool

/-- The units that the settings ask for; there is at least one. -/
def unitCount (w : WorkerSettings) : Nat := max w.units 1

/-- A pool that starts at an instant. The jobs run if asked for: the depth is read at once, and events
are purged after one period. -/
def start (w : WorkerSettings) (scheduled : Bool) (retention : Option RetentionPolicy) (clock : Nat) :
    WorkerPool where
  settings := w
  units := List.replicate (unitCount w) .starting
  reading := if scheduled then some clock else none
  purging := do
    guard scheduled
    let policy ← retention
    let period ← w.retentionPeriod
    some (clock + period * 1000, policy)

/-- The next instant at which something is to be done. -/
def wakesAt (pool : WorkerPool) : Option Nat :=
  (pool.units.map UnitState.wakesAt ++ pool.reading.toList ++
    (pool.purging.map Prod.fst).toList).min?

end WorkerPool

namespace Pipeline

/-- Works off the messages that are ready, in at most so many batches. -/
def workOff (w : WorkerSettings) : Nat → StateM Pipeline UnitState
  | 0 => return .pausing (← get).clock
  | fuel + 1 => do
    match ← (receiveMessages w.maxMessages 0).run with
    | .error _ => return .pausing ((← get).clock + w.backoffMillis)
    | .ok [] =>
      let p ← get
      let deadline := p.clock + w.waitMillis
      return .waiting (p.queue.wakeAt deadline) deadline
    | .ok deliveries =>
      let _ ← processDeliveries deliveries
      workOff w fuel

/-- The batches after which every message was handled and every limited outage is over. -/
def batches (p : Pipeline) : Nat := p.queue.depth + p.outages.remaining + 1

/-- Works off all messages that are ready. -/
def workOffAll (w : WorkerSettings) : StateM Pipeline UnitState := do workOff w (← get).batches

/-- A unit that waits looks whether there are messages. -/
def look (w : WorkerSettings) (deadline : Nat) : StateM Pipeline UnitState := do
  let p ← get
  let (deliveries, queue) := p.queue.take w.maxMessages p.clock
  set { p with queue }
  if !deliveries.isEmpty then
    let _ ← processDeliveries deliveries
    workOffAll w
  else if deadline ≤ p.clock then workOffAll w
  else return .waiting (queue.wakeAt deadline) deadline

/-- Raises or lowers the number of active units. -/
def setActive (change : Nat → Nat) : StateM Pipeline Unit :=
  modify fun p =>
    { p with metrics := { p.metrics with activeWorkerUnits := change p.metrics.activeWorkerUnits } }

/-- What a unit does when its time has come. -/
def runUnit (w : WorkerSettings) (s : UnitState) : StateM Pipeline UnitState := do
  if (← get).clock < s.wakesAt then return s
  match s with
  | .starting =>
    setActive (raised · 1)
    workOffAll w
  | .waiting _ deadline => look w deadline
  | .pausing _ => workOffAll w

/-- Purges old events when it is time for it. The job ends when there is no cutoff for its policy. -/
def runPurging (now : Instant) (w : WorkerSettings) :
    Option (Nat × RetentionPolicy) → StateM Pipeline (Option (Nat × RetentionPolicy))
  | none => return none
  | some (due, policy) => do
    let clock := (← get).clock
    if clock < due then return some (due, policy)
    match ← (runRetention now policy).run with
    | .error .outOfRange => return none
    | _ => return w.retentionPeriod.map fun period => (clock + period * 1000, policy)

/-- Reads the depth of the queue when it is time for it. -/
def runReading (w : WorkerSettings) : Option Nat → StateM Pipeline (Option Nat)
  | none => return none
  | some due => do
    let clock := (← get).clock
    if clock < due then return some due
    let _ ← measureQueue.run
    return some (clock + w.metricsPeriod * 1000)

/-- Everybody in the pool does what is to be done now. -/
def turnPool (now : Instant) (pool : WorkerPool) : StateM Pipeline WorkerPool := do
  let w := pool.settings
  let units ← pool.units.mapM (runUnit w)
  let purging ← runPurging now w pool.purging
  let reading ← runReading w pool.reading
  return { pool with units, purging, reading }

/-- Lets a pool run until an instant, in at most so many turns. -/
def runPool (now : Instant) (stop : Nat) : Nat → WorkerPool → StateM Pipeline WorkerPool
  | 0, pool => return pool
  | fuel + 1, pool => do
    match pool.wakesAt with
    | none => return pool
    | some wake =>
      if stop ≤ max wake (← get).clock then return pool
      modify fun p => { p with clock := max wake p.clock }
      runPool now stop fuel (← turnPool now pool)

/-- Ends a pool: the units that had started are not active any more. -/
def stopPool (pool : WorkerPool) : StateM Pipeline Unit :=
  (pool.units.filter (· ≠ .starting)).forM fun _ => setActive lowered

/-- Lets a pool run for some milliseconds and ends it; says how many units were active before the end. -/
def employPool (now : Instant) (w : WorkerSettings) (scheduled : Bool)
    (retention : Option RetentionPolicy) (duration : Nat) : StateM Pipeline Nat := do
  let p ← get
  let stop := p.clock + duration
  let pool ← runPool now stop (duration + p.outages.remaining + 2)
    (.start w scheduled retention p.clock)
  modify fun p => { p with clock := max stop p.clock }
  let active := (← get).metrics.activeWorkerUnits
  stopPool pool
  return active

end Pipeline

end AuditTrail
