import AuditTrail.Pipeline.Basic
import AuditTrail.Settings.Basic
/-!
# Working off deliveries

A worker handles the deliveries of a batch one after the other, each as if it were alone. A message that
cannot be read is acknowledged and so discarded; one that was projected is acknowledged; one whose
projection failed keeps its lease and will be delivered again.
-/

namespace AuditTrail

/-! ## Deliveries -/

structure CycleReport where
  received : Nat
  acked : Nat
  failed : Nat
  discarded : Nat
  deriving DecidableEq, Repr

namespace CycleReport

def empty : CycleReport := ⟨0, 0, 0, 0⟩

def toJson (r : CycleReport) : Json :=
  .object [("received", .nat r.received), ("acked", .nat r.acked), ("failed", .nat r.failed),
    ("discarded", .nat r.discarded)]

end CycleReport

inductive Handling where
  | acked
  | failed
  | discarded
  deriving DecidableEq, Repr

def CycleReport.add (r : CycleReport) : Handling → CycleReport
  | .acked => { r with received := r.received + 1, acked := r.acked + 1 }
  | .failed => { r with received := r.received + 1, failed := r.failed + 1 }
  | .discarded => { r with received := r.received + 1, discarded := r.discarded + 1 }

structure WorkerBackend (m : Type → Type) where
  target : IndexTarget m
  acknowledge : String → ExceptT Failure m Unit
  count : Counter → Nat → m Unit

namespace WorkerBackend

variable {m : Type → Type} [Monad m] (backend : WorkerBackend m)

/-- Does what a message asks for and counts the indexed events. -/
def apply (message : Message) : ExceptT Failure m Unit := do
  let n ← backend.target.project message
  backend.count .eventsIndexed n

/-- Acknowledges a delivery; whether that went well. -/
def acknowledged (token : String) : m Bool := do
  match ← (backend.acknowledge token).run with
  | .ok _ => return true
  | .error _ =>
    backend.count .ackFailures 1
    return false

def handle (d : Delivery) : m Handling := do
  backend.count .messagesReceived 1
  if 1 < d.count then backend.count .messagesRedelivered 1
  match Message.decode d.body with
  | .error _ =>
    backend.count .messagesDiscarded 1
    let _ ← backend.acknowledged d.token
    return .discarded
  | .ok message =>
    match ← (backend.apply message).run with
    | .error _ =>
      backend.count .projectionFailures 1
      return .failed
    | .ok _ =>
      if ← backend.acknowledged d.token then
        backend.count .messagesAcked 1
        return .acked
      else return .failed

def process (deliveries : List Delivery) : m CycleReport :=
  deliveries.foldlM (fun r d => return r.add (← backend.handle d)) .empty

end WorkerBackend

/-! ## The worker of a pipeline -/

namespace Pipeline

/-- The search index of the pipeline as a target of messages. -/
def indexTarget : IndexTarget (StateM Pipeline) where
  create := createPartition
  index := indexEvent
  bulkIndex := indexEvents
  delete := deleteDocument

def workerBackend : WorkerBackend (StateM Pipeline) where
  target := indexTarget
  acknowledge := acknowledge
  count c n := modify fun p => { p with metrics := p.metrics.add c n }

def applyMessage (message : Message) : Action Unit := workerBackend.apply message

def processDeliveries (deliveries : List Delivery) : StateM Pipeline CycleReport :=
  workerBackend.process deliveries

def poll (w : WorkerSettings) : Action CycleReport := do
  let deliveries ← receiveMessages w.maxMessages w.waitMillis
  processDeliveries deliveries

/-- Polls until nothing is received, at most so many times. -/
def drain (w : WorkerSettings) : Nat → Action (List CycleReport)
  | 0 => return []
  | fuel + 1 => do
    let report ← poll w
    if report.received = 0 then return [report]
    else return report :: (← drain w fuel)

end Pipeline

end AuditTrail
