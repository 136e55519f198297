import AuditTrail.Log.Basic
/-!
# The queue on a log

Messages are sent by appending them to a log that a broker keeps, and received by reading it. The log is
looked up at the first use, and again after it could not be read; the place where reading goes on is kept.
-/

namespace AuditTrail.Log

/-- A broker that keeps logs. What it cannot do it reports in words. -/
structure Broker (m : Type → Type) where
  names : ExceptT String m (List String)
  /-- Looks up a log by its name; the other requests are about that log. -/
  find : String → ExceptT String m Unit
  start : StartOffset → ExceptT String m Nat
  append : Entry → ExceptT String m Unit
  /-- Records from a position on, and the length of the log. -/
  read : Nat → ExceptT String m (List Record × Nat)

structure LogQueue where
  /-- Whether the log has been found. -/
  connected : Bool := false
  /-- The account of what has been read, once it is known where to start. -/
  leases : Option Leases := none
  /-- The length of the log when it was read last. -/
  length : Nat := 0
  deriving DecidableEq, Repr

namespace LogQueue

/-- The first position that is not acknowledged. -/
def committed (q : LogQueue) : Option Nat := q.leases.map Leases.committed

/-- The records that are not acknowledged, as far as the log was known when it was read last. -/
def depth (q : LogQueue) : Nat := q.length - q.committed.getD 0

/-- Forgets that the log was found. -/
def reset (q : LogQueue) : LogQueue := { q with connected := false }

def acknowledge (q : LogQueue) (receipt : String) : Except Failure LogQueue := do
  let leases ← (q.leases.getD (.startingAt 0)).acknowledge receipt
  return { q with leases := q.leases.map fun _ => leases }

end LogQueue

def queueName : String := "redpanda"

/-- Something that is done with the queue. -/
abbrev Action (m : Type → Type) (α : Type) := ExceptT Failure (StateT LogQueue m) α

section

variable {m : Type → Type} [Monad m] {α : Type}

/-- Asks the broker, and fails with its report. -/
def asking (request : ExceptT String m α) (failure : String → Failure) : Action m α := do
  match ← (request.run : m (Except String α)) with
  | .ok a => return a
  | .error report => throw (failure report)

/-- Does something to the account of what has been read. -/
def withLeases (f : Leases → α × Leases) : Action m α := do
  let q ← get
  let (a, leases) := f (q.leases.getD (.startingAt 0))
  set { q with leases := some leases }
  return a

variable (broker : Broker m) (s : QueueSettings)

/-- Finds the log, and the place to start at, unless that is done. -/
def connect : Action m Unit := do
  if (← get).connected then return
  asking (broker.find s.topic) fun report => .queue ("Failed to get partition client: " ++ report)
  if (← get).leases.isNone then
    let start ← asking (broker.start s.startOffset) fun report =>
      .queue ("Failed to get offset: " ++ report)
    modify fun q => { q with leases := some (.startingAt start) }
  modify fun q => { q with connected := true }

/-- Appends a message to the log; the messages of one tenant stay in order. -/
def send (message : Message) : Action m Unit := do
  connect broker s
  let entry : Entry :=
    ⟨.ofWord s.compression, some (Text.bytes message.tenant.name), some (Text.bytes message.encode)⟩
  asking (broker.append entry) fun report => .publish ("Failed to produce to Redpanda: " ++ report)

/-- Reads the log and hands out at most so many records. When the log cannot be read, those that have
been handed out already are all that is received. -/
def readOn (handedOut : List Delivery) (max now : Nat) : Action m (List Delivery) := do
  let next := ((← get).leases.map Leases.next).getD 0
  match ← ((broker.read next).run : m (Except String (List Record × Nat))) with
  | .ok (records, length) =>
    modify fun q => { q with length }
    let fetched ← withLeases (Leases.merge now (s.visibilitySeconds * 1000) max records)
    return handedOut ++ fetched
  | .error report =>
    modify LogQueue.reset
    if handedOut.isEmpty then throw (.queue ("Failed to fetch records: " ++ report))
    return handedOut

/-- Hands out at most so many records, and at least one if there is one: first those whose leases have
expired, then those that come next in the log. -/
def receive (max now : Nat) : Action m (List Delivery) := do
  connect broker s
  let max := Nat.max max 1
  let reclaimed ← withLeases fun l => l.reclaim now (s.visibilitySeconds * 1000) max
  if max ≤ reclaimed.length then return reclaimed
  readOn broker s reclaimed (max - reclaimed.length) now

def acknowledge (receipt : String) : Action m Unit := do
  set (← ((← get).acknowledge receipt : Except Failure LogQueue))

/-- Whether the broker answers and has the log. -/
def isReachable : m Bool := do
  match ← broker.names.run with
  | .ok names => return names.contains s.topic
  | .error _ => return false

end

end AuditTrail.Log
