import AuditTrail.Message
/-!
# The queue

A message on the queue is ready or leased. Who receives it gets a lease with a token of its own; before
the lease expires the token acknowledges the message, which removes it, and afterwards the message becomes
ready again. Time is counted in milliseconds.
-/

namespace AuditTrail

/-- A message on the queue and how often it has been handed out. -/
structure QueueEntry where
  body : String
  count : Nat
  deriving DecidableEq, Repr

structure QueueLease where
  token : String
  entry : QueueEntry
  expiresAt : Nat
  deriving DecidableEq, Repr

structure Queue where
  ready : List QueueEntry
  /-- The leases, oldest first. -/
  leased : List QueueLease
  /-- The milliseconds that a lease lasts. -/
  visibility : Nat
  /-- The tokens, one after the other, and how many of them have been used. -/
  tokens : Nat → String
  issued : Nat

namespace Queue

def new (visibility : Nat) (tokens : Nat → String) : Queue := ⟨[], [], visibility, tokens, 0⟩

/-- The messages that are not acknowledged yet. -/
def depth (q : Queue) : Nat := q.ready.length + q.leased.length

def peek (q : Queue) : List Message :=
  q.ready.filterMap fun e => (Message.decode e.body).toOption

/-- Puts a text at the end, whatever it is. -/
def sendText (q : Queue) (body : String) : Queue := { q with ready := q.ready ++ [⟨body, 0⟩] }

def send (q : Queue) (m : Message) : Queue := q.sendText m.encode

/-- Makes the messages of expired leases ready again. -/
def reclaim (q : Queue) (now : Nat) : Queue :=
  let (expired, valid) := q.leased.partition fun l => l.expiresAt ≤ now
  { q with ready := q.ready ++ expired.map QueueLease.entry, leased := valid }

/-- Makes the messages of all leases ready again. -/
def releaseAll (q : Queue) : Queue :=
  { q with ready := q.ready ++ q.leased.map QueueLease.entry, leased := [] }

/-- Leases at most so many of the ready messages, the first ones first. -/
def lease : Nat → Queue → Nat → List Delivery × Queue
  | 0, q, _ => ([], q)
  | max + 1, q, now =>
    match q.ready with
    | [] => ([], q)
    | entry :: rest =>
      let entry := { entry with count := entry.count + 1 }
      let token := q.tokens q.issued
      let (deliveries, q) := lease max
        { q with
          ready := rest
          leased := q.leased ++ [⟨token, entry, now + q.visibility⟩]
          issued := q.issued + 1 } now
      (⟨entry.body, token, entry.count⟩ :: deliveries, q)

/-- Hands out at most so many messages, and at least one if there is one. -/
def take (q : Queue) (max now : Nat) : List Delivery × Queue :=
  lease (Nat.max max 1) (q.reclaim now) now

def nextExpiry (q : Queue) : Option Nat := (q.leased.map QueueLease.expiresAt).min?

/-- When a receiver that finds nothing looks again: when a lease expires, or at its deadline. -/
def wakeAt (q : Queue) (deadline : Nat) : Nat := q.nextExpiry.elim deadline (Nat.min · deadline)

/-- Hands out messages, waiting for the first one up to a number of milliseconds. Also says when it was
over. -/
def receive (q : Queue) (max wait now : Nat) : (List Delivery × Nat) × Queue :=
  let (deliveries, q) := q.take max now
  if deliveries.isEmpty ∧ 0 < wait then
    let wake := q.wakeAt (now + wait)
    let (deliveries, q) := q.take max wake
    ((deliveries, wake), q)
  else ((deliveries, now), q)

/-- Removes the message that is leased under a token. -/
def acknowledge (q : Queue) (token : String) : Except Failure Queue :=
  if q.leased.any fun l => l.token = token then
    .ok { q with leased := q.leased.filter fun l => l.token ≠ token }
  else .error (.queue ("unknown or expired ack token " ++ token))

end Queue

end AuditTrail
