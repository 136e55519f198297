import AuditTrail.Proofs.RateLimit.Rate
/-!
# Forgetting idle keys

A key that is forgotten finds a full bucket when it comes back. Nobody notices this if its bucket is full by then
anyway, which is so just when a burst comes back in the time that a key is idle before it is forgotten.
-/

namespace AuditTrail

namespace RateLimiter

variable {l m : RateLimiter} {key : String} {now since maxAge n : Nat}

/-! ## Bursts that come back in time -/

/-- A bucket that has been idle for long is full, and so is the one of a key that was forgotten. -/
theorem Alike.cleanup (hfull : l.limit.capacity ≤ maxAge * l.limit.rate) (key : String) (now : Nat) :
    Alike key now l (l.cleanup maxAge now) where
  limit := rfl
  bucketAt later hlater := by
    simp only [RateLimiter.bucketAt, RateLimiter.cleanup, Table.get?_filter]
    cases l.buckets.get? key with
    | none => rfl
    | some b =>
      rw [Option.filter_some]
      split
      · rfl
      · rename_i hidle
        simp only [decide_eq_true_eq, not_lt] at hidle
        have hage : maxAge ≤ later - b.updated := hidle.trans (Nat.sub_le_sub_right hlater b.updated)
        have hrefilled : l.limit.capacity ≤ (later - b.updated) * l.limit.rate :=
          hfull.trans (Nat.mul_le_mul_right _ hage)
        simp only [Option.getD_none, Option.getD_some, Bucket.refill, Bucket.full]
        congr 1
        omega

private theorem answers_filter_isCheck (hl : l.limit.enabled = true) {calls : List Call}
    (hfull : ∀ maxAge now, Call.cleanup maxAge now ∈ calls → l.limit.capacity ≤ maxAge * l.limit.rate)
    (hsorted : calls.Pairwise (·.now ≤ ·.now)) (hlater : ∀ c ∈ calls, since ≤ c.now)
    (h : ∀ key, Alike key since l m) : answers l calls = answers m (calls.filter Call.isCheck) := by
  induction calls generalizing l m since with
  | nil => rfl
  | cons call calls ih =>
    obtain ⟨hcall, htail⟩ := List.pairwise_cons.mp hsorted
    have hsince : since ≤ call.now := hlater call List.mem_cons_self
    have hl' := enabled_after hl call
    have hfull' (maxAge now : Nat) (hmem : Call.cleanup maxAge now ∈ calls) :
        (l.after call).limit.capacity ≤ maxAge * (l.after call).limit.rate := by
      rw [limit_after]
      exact hfull maxAge now (List.mem_cons_of_mem _ hmem)
    cases call with
    | check c =>
      have hboth (key : String) : Alike key since (l.after (.check c)) (m.after (.check c)) := by
        by_cases hkey : c.key = key
        · subst hkey
          exact (h c.key).check hl hsince
        · have hm : m.limit.enabled = true := (h key).limit ▸ hl
          exact ((Alike.check_other hl hkey).symm.trans (h key)).trans (Alike.check_other hm hkey)
      have hrest := ih hl' hfull' htail (fun d hd => hlater d (List.mem_cons_of_mem _ hd)) hboth
      have hverdict : (m.check c.key c.now).1 = (l.check c.key c.now).1 := (h c.key).verdict hl hsince
      rw [List.filter_cons_of_pos rfl, answers, answers, hrest, hverdict]
    | cleanup maxAge now =>
      have hback := hfull maxAge now List.mem_cons_self
      have hforgotten (key : String) : Alike key now (l.after (.cleanup maxAge now)) m :=
        (Alike.cleanup hback key now).symm.trans ((h key).mono hsince)
      rw [List.filter_cons_of_neg (by simp [Call.isCheck]), answers]
      exact ih hl' hfull' htail hcall hforgotten

/-! ## Bursts that do not -/

private theorem answers_replicate (hl : l.limit.enabled = true) (h : (n : ℚ) ≤ l.available key now) :
    answers l (.replicate n (.check ⟨key, now⟩)) = .replicate n (⟨key, now⟩, .ok ()) := by
  induction n generalizing l with
  | zero => rfl
  | succ n ih =>
    rw [Nat.cast_succ] at h
    have hok : (l.check key now).1 = .ok () :=
      (check_eq_ok_iff hl).mpr (le_trans (le_add_of_nonneg_left (Nat.cast_nonneg n)) h)
    have hleft : (n : ℚ) ≤ (l.after (.check ⟨key, now⟩)).available key now := by
      rw [after, available_check hl, if_pos hok]
      exact le_sub_iff_add_le.mpr h
    rw [List.replicate_succ, List.replicate_succ, answers, hok, ih (enabled_after hl _) hleft]

private theorem get?_cleanup_replicate (hl : l.limit.enabled = true) (maxAge now : Nat)
    (h : ∀ b, l.buckets.get? key = some b → b.updated = now) (n : Nat) :
    ((l.afterAll (.replicate n (.check ⟨key, now⟩))).cleanup maxAge (now + maxAge)).buckets.get? key = none := by
  induction n generalizing l with
  | zero =>
    simp only [List.replicate_zero, afterAll, List.foldl_nil, cleanup, Table.get?_filter, Option.filter_eq_none_iff]
    intro b hb
    simp [h b hb]
  | succ n ih =>
    have hupdated (b : Bucket) (hb : (l.after (.check ⟨key, now⟩)).buckets.get? key = some b) : b.updated = now := by
      rw [after, check_eq hl, Table.get?_insert, if_pos rfl] at hb
      cases hb
      exact Bucket.updated_spend _
    exact ih (enabled_after hl _) hupdated

/-- A burst of a key, and as much again when the key was idle for just as long as it takes to forget it. -/
def twice (n maxAge : Nat) : List Call :=
  .replicate n (.check ⟨"acme", 0⟩) ++ .cleanup maxAge maxAge :: .replicate n (.check ⟨"acme", maxAge⟩)

private theorem sorted_twice (n maxAge : Nat) : (twice n maxAge).Pairwise (·.now ≤ ·.now) := by
  simp [twice, List.pairwise_append, List.pairwise_replicate, Call.now]

private theorem answers_twice {r : RateLimit} (hr : r.enabled = true) (maxAge : Nat) :
    answers (.new r) (twice (max r.burst 1) maxAge) =
      .replicate (max r.burst 1) (⟨"acme", 0⟩, .ok ()) ++
        .replicate (max r.burst 1) (⟨"acme", maxAge⟩, .ok ()) := by
  let later := ((new r).afterAll (.replicate (max r.burst 1) (.check ⟨"acme", 0⟩))).cleanup maxAge maxAge
  have hlimit : later.limit = r := limit_afterAll _ _
  have hnew (b : Bucket) (h : (new r).buckets.get? "acme" = some b) : b.updated = 0 := by
    cases h
  have hnone : later.buckets.get? "acme" = none := by
    simpa using get?_cleanup_replicate hr maxAge 0 hnew (max r.burst 1)
  have hfirst : answers (.new r) (.replicate (max r.burst 1) (.check ⟨"acme", 0⟩)) = _ :=
    answers_replicate hr (available_of_get?_eq_none rfl 0).ge
  have hsecond : answers later (.replicate (max r.burst 1) (.check ⟨"acme", maxAge⟩)) = _ :=
    answers_replicate (hlimit ▸ hr) (by rw [available_of_get?_eq_none hnone, hlimit]; rfl)
  rw [twice, answers_append, hfirst, answers]
  exact congrArg _ hsecond

private theorem admissions_twice_le {r : RateLimit} (hr : r.enabled = true) (n maxAge : Nat) :
    (admissions (answers (.new r) ((twice n maxAge).filter Call.isCheck)) "acme" 0 (seconds maxAge) : ℚ) ≤
      r.most + seconds maxAge * r.perSecond := by
  have hchecks : (twice n maxAge).filter Call.isCheck =
      (List.replicate n (⟨"acme", 0⟩ : Check) ++ .replicate n ⟨"acme", maxAge⟩).map .check := by
    simp [twice, Call.isCheck, List.filter_replicate]
  have hsorted : (List.replicate n (⟨"acme", 0⟩ : Check) ++ .replicate n ⟨"acme", maxAge⟩).Pairwise
      (·.now ≤ ·.now) := by
    simp [List.pairwise_append, List.pairwise_replicate]
  have hmost := admissions_le_most (l := .new r) hr "acme" hsorted (seconds_nonneg maxAge)
  rwa [sub_zero, ← hchecks] at hmost

private theorem admissions_replicate_twice (n maxAge : Nat) :
    admissions (.replicate n (⟨"acme", 0⟩, .ok ()) ++ .replicate n (⟨"acme", maxAge⟩, .ok ()))
      "acme" 0 (seconds maxAge) = n + n := by
  simp [admissions, List.countP_replicate, seconds_zero, seconds_nonneg]

private theorem capacity_le_iff (r : RateLimit) (maxAge : Nat) :
    r.capacity ≤ maxAge * r.rate ↔ r.most ≤ seconds maxAge * r.perSecond := by
  have htoken : (0 : ℚ) < RateLimit.token := by norm_num [RateLimit.token]
  rw [← Bucket.level_full r 0, Bucket.level, div_le_iff₀ htoken]
  have htime : seconds maxAge * r.perSecond * RateLimit.token = (maxAge * r.rate : Nat) := by
    simp only [seconds, RateLimit.perSecond, RateLimit.rate, RateLimit.token]
    push_cast
    ring
  rw [htime, Nat.cast_le]
  rfl

/-- Forgetting the keys that were idle for some time is never noticed just when this time brings a whole burst. -/
private theorem unnoticed_iff_burst_comes_back {r : RateLimit} (hr : r.enabled = true) (maxAge : Nat) :
    (∀ calls : List Call, calls.Pairwise (·.now ≤ ·.now) →
        (∀ age now, Call.cleanup age now ∈ calls → age = maxAge) →
        answers (.new r) calls = answers (.new r) (calls.filter Call.isCheck)) ↔
      r.most ≤ seconds maxAge * r.perSecond := by
  constructor
  · intro hsame
    have hages (age now : Nat) (hmem : Call.cleanup age now ∈ twice (max r.burst 1) maxAge) : age = maxAge := by
      simp [twice] at hmem
      exact hmem.1
    have hanswers := hsame _ (sorted_twice (max r.burst 1) maxAge) hages
    have hmost := admissions_twice_le hr (max r.burst 1) maxAge
    rw [← hanswers, answers_twice hr, admissions_replicate_twice, Nat.cast_add, RateLimit.most] at hmost
    rw [RateLimit.most]
    linarith
  · intro hback calls hsorted hages
    have hfull (age now : Nat) (hmem : Call.cleanup age now ∈ calls) : r.capacity ≤ age * r.rate := by
      rw [hages age now hmem]
      exact (capacity_le_iff r maxAge).mpr hback
    exact answers_filter_isCheck (l := .new r) hr hfull hsorted (fun c _ => Nat.zero_le c.now)
      fun _ => ⟨rfl, fun _ _ => rfl⟩

/-- Forgetting the keys that were idle for five minutes is never noticed, at an enabled limiter that is new, just
when five times the requests of a minute are no fewer than a burst. -/
theorem cleanup_unnoticed_iff {r : RateLimit} (hr : r.enabled = true) :
    (∀ calls : List Call, calls.Pairwise (·.now ≤ ·.now) →
        (∀ age now, Call.cleanup age now ∈ calls → age = idle) →
        answers (.new r) calls = answers (.new r) (calls.filter Call.isCheck)) ↔
      max r.burst 1 ≤ 5 * max r.requestsPerMinute 1 := by
  have hminutes : seconds idle * r.perSecond = (5 * max r.requestsPerMinute 1 : Nat) := by
    simp only [seconds, idle, RateLimit.perSecond]
    push_cast
    ring
  rw [unnoticed_iff_burst_comes_back hr, hminutes, RateLimit.most, Nat.cast_le]

/-- One request a minute and six at once: after a burst and five minutes, five more are admitted and the sixth has
to wait a minute, unless the key was forgotten. -/
theorem cleanup_noticed :
    ¬ (∀ calls : List Call, calls.Pairwise (·.now ≤ ·.now) →
        (∀ age now, Call.cleanup age now ∈ calls → age = idle) →
        answers (.new ⟨true, 1, 6⟩) calls = answers (.new ⟨true, 1, 6⟩) (calls.filter Call.isCheck)) ∧
      (answers (.new ⟨true, 1, 6⟩) (twice 6 idle)).getLast? = some (⟨"acme", idle⟩, .ok ()) ∧
      (answers (.new ⟨true, 1, 6⟩) ((twice 6 idle).filter Call.isCheck)).getLast? =
        some (⟨"acme", idle⟩, .error 60) :=
  ⟨fun h => absurd ((cleanup_unnoticed_iff rfl).mp h) (by decide), by decide +kernel, by decide +kernel⟩

end RateLimiter

end AuditTrail
