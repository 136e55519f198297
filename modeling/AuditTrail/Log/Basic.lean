import AuditTrail.Message
import AuditTrail.Settings.Basic
/-!
# The log and its readers

A log keeps entries in the order in which they were appended, and never changes one. It does not know which of its
records have been dealt with, so its reader keeps account: of the position up to which it has read, and of the records
before it that are handed out and not acknowledged. Reading takes three steps, between which other readers may take
theirs: the expired leases are renewed, records are fetched from the log, and those that nobody has taken meanwhile are
leased.
-/

namespace AuditTrail.Log

/-! ## Records -/

/-- How an entry is compressed on its way. -/
inductive Compression where
  | plain
  | gzip
  | snappy
  | lz4
  | zstd
  deriving DecidableEq, Repr

namespace Compression

/-- Entries are not compressed in ways that are not known. -/
def ofWord : String → Compression
  | "gzip" => gzip
  | "snappy" => snappy
  | "lz4" => lz4
  | "zstd" => zstd
  | _ => plain

def word : Compression → String
  | plain => "none"
  | gzip => "gzip"
  | snappy => "snappy"
  | lz4 => "lz4"
  | zstd => "zstd"

end Compression

/-- What is appended to a log. Entries with one key stay in order. -/
structure Entry where
  compression : Compression
  key : Option (List UInt8)
  value : Option (List UInt8)
  deriving DecidableEq, Repr

structure Record where
  position : Nat
  value : Option (List UInt8)
  deriving DecidableEq, Repr

def recordsFrom (entries : List Entry) (position : Nat) : List Record :=
  (entries.zipIdx.drop position).map fun (e, i) => ⟨i, e.value⟩

/-- The position at which a new reader of a log starts. -/
def startOf (entries : List Entry) : StartOffset → Nat
  | .earliest => 0
  | .latest => entries.length

/-! ## Receipts -/

structure Token where
  position : Int
  count : Nat
  deriving DecidableEq, Repr

namespace Token

def text (t : Token) : String := toString t.position ++ ":" ++ toString t.count

/-- Reads a receipt. The position has 64 bits, one of them for the sign, and the count has 32. -/
def parse? (s : String) : Option Token :=
  match s.toList.span (· ≠ ':') with
  | (position, _ :: count) => do
    let position ← parseInteger (minInt 64) (maxInt 64) (String.ofList position)
    let count ← parseNatural (wordBound 32) (String.ofList count)
    some ⟨position, count⟩
  | (_, []) => none

end Token

/-! ## Leases -/

structure Lease where
  position : Nat
  body : String
  /-- How often the record has been handed out. -/
  count : Nat
  expiresAt : Nat
  deriving DecidableEq, Repr

namespace Lease

def token (l : Lease) : Token := ⟨l.position, l.count⟩

def delivery (l : Lease) : Delivery := ⟨l.body, l.token.text, l.count⟩

/-- The lease for another time, until an instant. -/
def renew (l : Lease) (expiresAt : Nat) : Lease := { l with count := l.count + 1, expiresAt }

end Lease

structure Leases where
  /-- The first position that has not been read. -/
  next : Nat
  /-- The leases in the order of their positions. -/
  held : List Lease
  deriving DecidableEq, Repr

namespace Leases

/-- The account of a reader that starts at a position. -/
def startingAt (position : Nat) : Leases := ⟨position, []⟩

/-- The first position that is not acknowledged; all before it are dealt with. -/
def committed (l : Leases) : Nat := (l.held.head?.map Lease.position).getD l.next

/-- Renews at most so many of the leases that have expired. -/
def renewExpired (now visibility : Nat) : Nat → List Lease → List Delivery × List Lease
  | _, [] => ([], [])
  | 0, leases => ([], leases)
  | max + 1, l :: rest =>
    if l.expiresAt ≤ now then
      let l := l.renew (now + visibility)
      let (deliveries, rest) := renewExpired now visibility max rest
      (l.delivery :: deliveries, l :: rest)
    else
      let (deliveries, rest) := renewExpired now visibility (max + 1) rest
      (deliveries, l :: rest)

/-- Hands out at most so many of the records whose leases have expired. -/
def reclaim (l : Leases) (now visibility max : Nat) : List Delivery × Leases :=
  let (deliveries, held) := renewExpired now visibility max l.held
  (deliveries, { l with held })

/-- Hands out at most so many records that have been fetched. Records before the first position that has
not been read are passed over, since another reader has taken them, and records without a value are
never handed out. -/
def merge (now visibility : Nat) : Nat → List Record → Leases → List Delivery × Leases
  | _, [], l => ([], l)
  | 0, _, l => ([], l)
  | max + 1, r :: rest, l =>
    if r.position < l.next then merge now visibility (max + 1) rest l
    else
      let next := r.position + 1
      match r.value with
      | none => merge now visibility (max + 1) rest { l with next }
      | some value =>
        let lease : Lease := ⟨r.position, Text.ofBytes value, 1, now + visibility⟩
        let (deliveries, l) := merge now visibility max rest ⟨next, l.held ++ [lease]⟩
        (lease.delivery :: deliveries, l)

/-- Ends the lease that a receipt is for. -/
def acknowledge (l : Leases) (receipt : String) : Except Failure Leases :=
  match Token.parse? receipt with
  | none => .error (.queue ("malformed ack token " ++ receipt))
  | some t =>
    if l.held.any fun lease => lease.token = t then
      .ok { l with held := l.held.filter fun lease => lease.token ≠ t }
    else .error (.queue ("unknown or expired ack token " ++ receipt))

end Leases

end AuditTrail.Log
