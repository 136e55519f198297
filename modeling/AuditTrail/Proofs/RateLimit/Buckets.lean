import AuditTrail.RateLimit
import Mathlib.Algebra.Order.Field.Basic
import Mathlib.Algebra.Order.Field.Rat
import Mathlib.Data.Rat.Cast.Order
import Mathlib.Tactic.Linarith
import Mathlib.Tactic.Ring
/-!
# Buckets in the course of time

What a key finds in its bucket at an instant decides a check of it, and nothing else does. In tokens and
seconds, a bucket is refilled at a steady rate up to a burst, and an admitted check takes one token out of it.
-/

namespace AuditTrail

def seconds (nanos : Nat) : ℚ := nanos / 1000000000

theorem seconds_zero : seconds 0 = 0 := by simp [seconds]

theorem seconds_nonneg (nanos : Nat) : 0 ≤ seconds nanos := div_nonneg (Nat.cast_nonneg nanos) (by norm_num)

theorem seconds_add (m n : Nat) : seconds (m + n) = seconds m + seconds n := by
  rw [seconds, Nat.cast_add, add_div, seconds, seconds]

theorem seconds_mono {m n : Nat} (h : m ≤ n) : seconds m ≤ seconds n :=
  div_le_div_of_nonneg_right (Nat.cast_le.mpr h) (by norm_num)

namespace RateLimit

def perSecond (r : RateLimit) : ℚ := (max r.requestsPerMinute 1 : Nat) / 60

/-- The tokens that a bucket holds at most. -/
def most (r : RateLimit) : ℚ := (max r.burst 1 : Nat)

theorem perSecond_pos (r : RateLimit) : 0 < r.perSecond :=
  div_pos (Nat.cast_pos.mpr (lt_max_of_lt_right Nat.one_pos)) (by norm_num)

end RateLimit

namespace Bucket

variable (b : Bucket) (r : RateLimit)

/-- The tokens in a bucket, parts of one among them. -/
def level : ℚ := b.tokens / RateLimit.token

/-- Whether a bucket has a token, or how long it takes until it has one. -/
def verdict : Except Nat Unit := if RateLimit.token ≤ b.tokens then .ok () else .error (b.wait r)

/-- What is left of a bucket after a check. -/
def spend : Bucket := if RateLimit.token ≤ b.tokens then ⟨b.tokens - RateLimit.token, b.updated⟩ else b

private theorem token_pos : (0 : ℚ) < RateLimit.token := by norm_num [RateLimit.token]

private theorem capacity_div_token : (r.capacity : ℚ) / RateLimit.token = r.most := by
  simp only [RateLimit.capacity, RateLimit.most, RateLimit.token]
  push_cast
  ring

theorem level_nonneg : 0 ≤ b.level := div_nonneg (Nat.cast_nonneg _) token_pos.le

theorem level_full (now : Nat) : (full r now).level = r.most := capacity_div_token r

/-- Time brings tokens at a steady rate, until the bucket is full. -/
theorem level_refill (now : Nat) :
    (b.refill r now).level = min (b.level + seconds (now - b.updated) * r.perSecond) r.most := by
  have hgained : (((b.tokens + (now - b.updated) * r.rate : Nat)) : ℚ) / RateLimit.token =
      b.level + seconds (now - b.updated) * r.perSecond := by
    simp only [level, seconds, RateLimit.perSecond, RateLimit.rate, RateLimit.token]
    push_cast
    ring
  rw [level, refill, Nat.cast_min, ← min_div_div_right token_pos.le, hgained, capacity_div_token]

theorem verdict_eq_ok : b.verdict r = .ok () ↔ RateLimit.token ≤ b.tokens := by
  unfold verdict
  split <;> simp_all

private theorem one_le_level_iff : 1 ≤ b.level ↔ RateLimit.token ≤ b.tokens := by
  rw [level, one_le_div token_pos, Nat.cast_le]

private theorem level_spend : b.spend.level = b.level - if b.verdict r = .ok () then 1 else 0 := by
  simp only [verdict_eq_ok]
  unfold spend
  split
  · rename_i htoken
    rw [level, level, Nat.cast_sub htoken, sub_div, div_self token_pos.ne']
  · rw [sub_zero]

theorem updated_spend : b.spend.updated = b.updated := by
  unfold spend
  split <;> rfl

end Bucket

namespace RateLimiter

variable {l m : RateLimiter} {key other : String} {now later : Nat}

/-- What a key finds in its bucket at an instant; the bucket of a key that was not used is full. -/
def bucketAt (l : RateLimiter) (key : String) (now : Nat) : Bucket :=
  ((l.buckets.get? key).getD (.full l.limit now)).refill l.limit now

theorem check_eq (hl : l.limit.enabled = true) (key : String) (now : Nat) :
    l.check key now = ((l.bucketAt key now).verdict l.limit,
      { l with buckets := l.buckets.insert key (l.bucketAt key now).spend }) := by
  have hupdated : (l.bucketAt key now).updated = now := rfl
  simp only [check, hl, Bucket.verdict, Bucket.spend, hupdated]
  change (if RateLimit.token ≤ (l.bucketAt key now).tokens then _ else _) = _
  split <;> rfl

/-- After a check, a key finds what the check has left and what time brings. -/
theorem bucketAt_check_self (hl : l.limit.enabled = true) :
    (l.check key now).2.bucketAt key later = (l.bucketAt key now).spend.refill l.limit later := by
  simp [check_eq hl, bucketAt, Table.get?_insert]

theorem bucketAt_check_other (hl : l.limit.enabled = true) (h : key ≠ other) :
    (l.check key now).2.bucketAt other later = l.bucketAt other later := by
  simp [check_eq hl, bucketAt, Table.get?_insert, h]

/-! ## Tokens -/

/-- The tokens that a key finds at an instant. -/
def available (l : RateLimiter) (key : String) (now : Nat) : ℚ := (l.bucketAt key now).level

theorem available_le_most (l : RateLimiter) (key : String) (now : Nat) : l.available key now ≤ l.limit.most := by
  rw [available, bucketAt, Bucket.level_refill]
  exact min_le_right _ _

theorem available_of_get?_eq_none (h : l.buckets.get? key = none) (now : Nat) :
    l.available key now = l.limit.most := by
  rw [available, bucketAt, h, Option.getD_none, Bucket.level_refill, Bucket.level_full]
  simp [Bucket.full, seconds]

theorem available_le (l : RateLimiter) (key : String) (h : now ≤ later) :
    l.available key later ≤ l.available key now + (seconds later - seconds now) * l.limit.perSecond := by
  have hgain : 0 ≤ (seconds later - seconds now) * l.limit.perSecond :=
    mul_nonneg (sub_nonneg.mpr (seconds_mono h)) l.limit.perSecond_pos.le
  cases hbucket : l.buckets.get? key with
  | none =>
    rw [available_of_get?_eq_none hbucket now]
    exact (available_le_most l key later).trans (le_add_of_nonneg_right hgain)
  | some b =>
    have helapsed : seconds (later - b.updated) ≤ seconds (now - b.updated) + (seconds later - seconds now) := by
      have hnanos : later - b.updated + now ≤ now - b.updated + later := by omega
      have hsum := seconds_mono hnanos
      rw [seconds_add, seconds_add] at hsum
      linarith
    have hrate := mul_le_mul_of_nonneg_right helapsed l.limit.perSecond_pos.le
    simp only [available, bucketAt, hbucket, Option.getD_some, Bucket.level_refill]
    rw [min_add]
    apply min_le_min
    · linarith
    · exact le_add_of_nonneg_right hgain

theorem level_spend_le_most (l : RateLimiter) (key : String) (now : Nat) :
    (l.bucketAt key now).spend.level ≤ l.limit.most := by
  rw [Bucket.level_spend _ l.limit]
  refine (sub_le_self _ ?_).trans (available_le_most l key now)
  split <;> simp

theorem check_eq_ok_iff (hl : l.limit.enabled = true) :
    (l.check key now).1 = .ok () ↔ 1 ≤ l.available key now := by
  rw [check_eq hl, Bucket.verdict_eq_ok, available, Bucket.one_le_level_iff]

theorem taken_le_available (hl : l.limit.enabled = true) :
    (if (l.check key now).1 = .ok () then 1 else 0 : ℚ) ≤ l.available key now := by
  split
  · exact (check_eq_ok_iff hl).mp ‹_›
  · exact Bucket.level_nonneg _

/-- An admitted check takes one of the tokens that its key finds, and any other check takes none. -/
theorem available_check (hl : l.limit.enabled = true) :
    (l.check key now).2.available key now =
      l.available key now - if (l.check key now).1 = .ok () then 1 else 0 := by
  have hupdated : (l.bucketAt key now).spend.updated = now := Bucket.updated_spend _
  calc (l.check key now).2.available key now
      = min ((l.bucketAt key now).spend.level + seconds (now - now) * l.limit.perSecond) l.limit.most := by
        rw [available, bucketAt_check_self hl, Bucket.level_refill, hupdated]
    _ = (l.bucketAt key now).spend.level := by simp [seconds, level_spend_le_most l key now]
    _ = l.available key now - if (l.check key now).1 = .ok () then 1 else 0 := by
        rw [Bucket.level_spend _ l.limit, check_eq hl, available]

/-! ## Limiters that a key cannot tell apart -/

/-- From an instant on, a key finds the same in its bucket with the one limiter as with the other. -/
structure Alike (key : String) (since : Nat) (l m : RateLimiter) : Prop where
  limit : m.limit = l.limit
  bucketAt : ∀ now, since ≤ now → m.bucketAt key now = l.bucketAt key now

namespace Alike

variable {k : RateLimiter} {since : Nat}

theorem symm (h : Alike key since l m) : Alike key since m l :=
  ⟨h.limit.symm, fun now hnow => (h.bucketAt now hnow).symm⟩

theorem trans (h : Alike key since k l) (h' : Alike key since l m) : Alike key since k m :=
  ⟨h'.limit.trans h.limit, fun now hnow => (h'.bucketAt now hnow).trans (h.bucketAt now hnow)⟩

theorem mono (h : Alike key since l m) (hnow : since ≤ now) : Alike key now l m :=
  ⟨h.limit, fun later hlater => h.bucketAt later (hnow.trans hlater)⟩

theorem verdict (h : Alike key since l m) (hl : l.limit.enabled = true) (hnow : since ≤ now) :
    (m.check key now).1 = (l.check key now).1 := by
  rw [check_eq hl, check_eq (h.limit ▸ hl), h.bucketAt now hnow, h.limit]

theorem check (h : Alike key since l m) (hl : l.limit.enabled = true) (hnow : since ≤ now) :
    Alike key since (l.check key now).2 (m.check key now).2 where
  limit := by rw [limit_check, limit_check, h.limit]
  bucketAt later _ := by
    rw [bucketAt_check_self hl, bucketAt_check_self (h.limit ▸ hl), h.bucketAt now hnow, h.limit]

theorem check_other (hl : l.limit.enabled = true) (hne : key ≠ other) :
    Alike other since l (l.check key now).2 :=
  ⟨limit_check l key now, fun _ _ => bucketAt_check_other hl hne⟩

end Alike

end RateLimiter

end AuditTrail
