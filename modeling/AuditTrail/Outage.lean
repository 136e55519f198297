import AuditTrail.Basic
import AuditTrail.Table
/-!
# Outages

The pipeline calls its backends through seams. While a seam is out of order some of the calls through it
fail, or all of them.
-/

namespace AuditTrail

inductive Seam where
  | storeRead
  | storePurge
  | storePing
  /-- Deletions that find nothing. -/
  | storeVanish
  | indexWrite
  | indexBulk
  | indexDelete
  | indexCreate
  | indexSearch
  | indexDrop
  | indexPing
  | queueSend
  | queueReceive
  | queueAck
  | queueDepth
  | tenantsResolve
  | tenantsList
  deriving DecidableEq, Repr

namespace Seam

def name : Seam → String
  | storeRead => "store.read"
  | storePurge => "store.purge"
  | storePing => "store.ping"
  | storeVanish => "store.vanish"
  | indexWrite => "index.write"
  | indexBulk => "index.bulk"
  | indexDelete => "index.delete"
  | indexCreate => "index.create"
  | indexSearch => "index.search"
  | indexDrop => "index.drop"
  | indexPing => "index.ping"
  | queueSend => "queue.send"
  | queueReceive => "queue.receive"
  | queueAck => "queue.ack"
  | queueDepth => "queue.depth"
  | tenantsResolve => "tenants.resolve"
  | tenantsList => "tenants.list"

def all : List Seam :=
  [storeRead, storePurge, storePing, storeVanish, indexWrite, indexBulk, indexDelete, indexCreate,
    indexSearch, indexDrop, indexPing, queueSend, queueReceive, queueAck, queueDepth, tenantsResolve,
    tenantsList]

/-- What a call through a seam that is out of order fails with. -/
def failure (s : Seam) : Failure :=
  let text := "injected " ++ s.name
  match s with
  | storePurge => .storeWrite text
  | storeRead | storePing | storeVanish | tenantsResolve | tenantsList => .storeRead text
  | indexWrite | indexBulk | indexDelete | indexCreate => .projection text
  | indexSearch | indexDrop | indexPing => .search text
  | queueSend => .publish text
  | queueReceive | queueAck | queueDepth => .queue text

end Seam

/-- Which calls of a sort fail: the next ones as listed, and either all or none of those after them. -/
structure Outage where
  next : List Bool
  later : Bool
  deriving DecidableEq, Repr

namespace Outage

/-- The next calls fail. -/
def calls (n : Nat) : Outage := ⟨List.replicate n true, false⟩

def forever : Outage := ⟨[], true⟩

/-- An outage of so many calls; one without an end for negative numbers. -/
def ofCalls (n : Int) : Outage := if n < 0 then forever else calls n.toNat

/-- Whether the call of that number, from now on, fails. -/
def fails (o : Outage) (n : Nat) : Bool := o.next.getD n o.later

/-- What is left of an outage after a call. -/
def advance (o : Outage) : Outage := { o with next := o.next.tail }

/-- The listed calls that will fail. -/
def remaining (o : Outage) : Nat := o.next.count true

private theorem fails_advance (o : Outage) (n : Nat) : o.advance.fails n = o.fails (n + 1) := by
  rcases o with ⟨_ | ⟨_, _⟩, _⟩ <;> rfl

end Outage

namespace Table

variable {σ : Type} [DecidableEq σ]

/-- Whether the call of a sort of that number, from now on, fails. -/
def fails (o : Table σ Outage) (s : σ) (n : Nat) : Bool := (o.get? s).elim false (·.fails n)

/-- Whether a call of a sort fails, and the outages after it. -/
def strike (o : Table σ Outage) (s : σ) : Bool × Table σ Outage :=
  (o.fails s 0, (o.get? s).elim o fun outage => o.insert s outage.advance)

theorem fails_strike (o : Table σ Outage) (s other : σ) (n : Nat) :
    (o.strike s).2.fails other n = o.fails other (if s = other then n + 1 else n) := by
  simp only [strike, fails]
  cases h : o.get? s with
  | none =>
    by_cases hs : s = other
    · subst hs
      simp [h]
    · simp [hs]
  | some outage =>
    rw [Option.elim_some, get?_insert]
    by_cases hs : s = other
    · subst hs
      simp [h, Outage.fails_advance]
    · simp [hs]

end Table

abbrev Outages := Table Seam Outage

namespace Outages

/-- The calls that limited outages will still fail. -/
def remaining (o : Outages) : Nat :=
  o.values.foldr (fun outage total => outage.remaining + total) 0

end Outages

end AuditTrail
