import AuditTrail.Table
/-!
# Rate limits

Every key has a bucket that holds at most a burst of tokens and is refilled at a steady rate. A request
takes one token or is told when to come again. Tokens are counted in fractions so fine that one
nanosecond brings a whole number of them, so nothing is rounded.
-/

namespace AuditTrail

structure RateLimit where
  enabled : Bool
  requestsPerMinute : Nat
  burst : Nat
  deriving DecidableEq, Repr

namespace RateLimit

def standard : RateLimit := ⟨true, 100, 10⟩

/-- A token in the fractions that it is counted in: the nanoseconds of a minute. -/
def token : Nat := 60000000000

/-- The fractions of a token that a nanosecond brings. -/
def rate (r : RateLimit) : Nat := max r.requestsPerMinute 1

def capacity (r : RateLimit) : Nat := max r.burst 1 * token

end RateLimit

/-- What a key has left, as of an instant in nanoseconds. -/
structure Bucket where
  tokens : Nat
  updated : Nat
  deriving DecidableEq, Repr

namespace Bucket

def full (r : RateLimit) (now : Nat) : Bucket := ⟨r.capacity, now⟩

def refill (b : Bucket) (r : RateLimit) (now : Nat) : Bucket :=
  ⟨min (b.tokens + (now - b.updated) * r.rate) r.capacity, now⟩

/-- The whole seconds until a bucket with less than a token has one; at least one second. -/
def wait (b : Bucket) (r : RateLimit) : Nat :=
  let second := r.rate * 1000000000
  max ((RateLimit.token - b.tokens + (second - 1)) / second) 1

end Bucket

/-- A limit and the buckets of the keys that were used. -/
structure RateLimiter where
  limit : RateLimit
  buckets : Table String Bucket

namespace RateLimiter

def new (limit : RateLimit) : RateLimiter := ⟨limit, .empty⟩

/-- Admits a request for a key, or says after how many seconds to repeat it. -/
def check (l : RateLimiter) (key : String) (now : Nat) : Except Nat Unit × RateLimiter :=
  if !l.limit.enabled then (.ok (), l)
  else
    let b := ((l.buckets.get? key).getD (Bucket.full l.limit now)).refill l.limit now
    if RateLimit.token ≤ b.tokens then
      (.ok (), { l with buckets := l.buckets.insert key ⟨b.tokens - RateLimit.token, now⟩ })
    else (.error (b.wait l.limit), { l with buckets := l.buckets.insert key b })

theorem limit_check (l : RateLimiter) (key : String) (now : Nat) : (l.check key now).2.limit = l.limit := by
  unfold check
  split
  · rfl
  · dsimp only
    split <;> rfl

/-- Forgets the keys that have not been used for so many nanoseconds. -/
def cleanup (l : RateLimiter) (maxAge now : Nat) : RateLimiter :=
  { l with buckets := l.buckets.filter fun _ b => decide (now - b.updated < maxAge) }

/-- The nanoseconds that a key may be unused before it is forgotten: those of five minutes. -/
def idle : Nat := 300000000000

def tracked (l : RateLimiter) : Nat := l.buckets.size

end RateLimiter

end AuditTrail
