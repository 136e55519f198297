import AuditTrail.Log.Queue
import AuditTrail.Outage
/-!
# A broker in memory

A broker with one log, for processes that have no other. Requests of a sort can be out of order, as those
to any broker can.
-/

namespace AuditTrail.Log

/-- An entry in a listing of the log. Of compressed entries only that they are compressed is shown. -/
def Entry.toJson (e : Entry) : Json :=
  let shown (bs : Option (List UInt8)) : Json := .optionalText (bs.map Text.ofBytes)
  let value : Json := match shown e.value with
    | .text s => (Json.Reader.ofText Json.Reader.json s).getD (.text s)
    | v => v
  .object <|
    ("codec", .text e.compression.word) ::
      if e.compression = .plain then [("key", shown e.key), ("value", value)] else []

/-- The sorts of requests that can be out of order. -/
inductive Request where
  | start
  | append
  | read
  deriving DecidableEq, Repr

def Request.ofName? : String → Option Request
  | "offsets" => some .start
  | "produce" => some .append
  | "fetch" => some .read
  | _ => none

structure MemoryBroker where
  name : String
  entries : List Entry
  outages : Table Request Outage

namespace MemoryBroker

def new (name : String) : MemoryBroker := ⟨name, [], .empty⟩

/-- Appends an entry whatever is out of order. -/
def push (b : MemoryBroker) (e : Entry) : MemoryBroker := { b with entries := b.entries ++ [e] }

/-- Puts the requests of a sort out of order. -/
def disturb (b : MemoryBroker) (r : Request) (o : Outage) : MemoryBroker :=
  { b with outages := b.outages.insert r o }

/-- Lets a request pass, unless requests of its sort are out of order. -/
def pass (r : Request) : ExceptT String (StateM MemoryBroker) Unit := do
  let b ← get
  let (fails, outages) := b.outages.strike r
  set { b with outages }
  if fails then throw "the request is refused"

end MemoryBroker

def inMemory : Broker (StateM MemoryBroker) where
  names := do return [(← get).name]
  find name := do
    if name ≠ (← get).name then throw "there is no such log"
  start offset := do
    MemoryBroker.pass .start
    return startOf (← get).entries offset
  append e := do
    MemoryBroker.pass .append
    modify fun b => b.push e
  read position := do
    MemoryBroker.pass .read
    let entries := (← get).entries
    return (recordsFrom entries position, entries.length)

end AuditTrail.Log
