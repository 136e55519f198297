import AuditTrail.Proofs.RateLimit.Rate
/-!
# When to come again

A key that is refused is told after how many seconds to come again. It does itself no harm by coming earlier: a
check that is refused leaves nothing behind that the key could notice. Whoever comes in time is admitted, and whoever
comes more than a second too early is not.
-/

namespace AuditTrail

private theorem RateLimit.one_le_most (r : RateLimit) : 1 ≤ r.most := Nat.one_le_cast.mpr (le_max_right r.burst 1)

namespace Bucket

variable {b : Bucket} {now later : Nat} (r : RateLimit)

private theorem refill_refill (hnow : b.updated ≤ now) (hlater : now ≤ later) :
    (b.refill r now).refill r later = b.refill r later := by
  have helapsed : later - b.updated = (now - b.updated) + (later - now) := by omega
  have hgained : (later - b.updated) * r.rate = (now - b.updated) * r.rate + (later - now) * r.rate := by
    rw [helapsed, Nat.add_mul]
  simp only [refill, hgained]
  congr 1
  omega

private theorem token_bounds (hless : b.tokens < RateLimit.token) :
    RateLimit.token ≤ b.tokens + b.wait r * (r.rate * 1000000000) ∧
      b.tokens + (b.wait r - 1) * (r.rate * 1000000000) < RateLimit.token := by
  have hrate : 0 < r.rate := lt_max_of_lt_right Nat.one_pos
  simp only [wait]
  generalize hsecond : r.rate * 1000000000 = second
  have hpositive : 0 < second := by omega
  generalize hmissing : RateLimit.token - b.tokens = missing
  have hdivided := Nat.div_add_mod (missing + (second - 1)) second
  have hrest := Nat.mod_lt (missing + (second - 1)) hpositive
  have hone : 1 ≤ (missing + (second - 1)) / second := (Nat.one_le_div_iff hpositive).mpr (by omega)
  rw [Nat.max_eq_left hone, Nat.sub_mul, Nat.one_mul]
  rw [Nat.mul_comm] at hdivided
  have hwhole : second ≤ (missing + (second - 1)) / second * second := Nat.le_mul_of_pos_left second hone
  omega

/-- A bucket with less than a token has one after the wait, and not a second earlier. -/
private theorem wait_bounds (hless : b.tokens < RateLimit.token) :
    1 ≤ b.level + b.wait r * r.perSecond ∧ b.level + (b.wait r - 1) * r.perSecond < 1 := by
  obtain ⟨henough, htight⟩ := token_bounds r hless
  have hlevel (n : Nat) :
      b.level + n * r.perSecond = (b.tokens + n * (r.rate * 1000000000) : Nat) / (RateLimit.token : ℚ) := by
    simp only [level, RateLimit.perSecond, RateLimit.rate, RateLimit.token]
    push_cast
    ring
  have htoken : (0 : ℚ) < RateLimit.token := by norm_num [RateLimit.token]
  have hone : 1 ≤ b.wait r := le_max_right _ 1
  have hbefore : ((b.wait r : ℚ) - 1) = (b.wait r - 1 : Nat) := by rw [Nat.cast_sub hone, Nat.cast_one]
  rw [hbefore, hlevel, hlevel, one_le_div htoken, div_lt_one htoken, Nat.cast_le, Nat.cast_lt]
  exact ⟨henough, htight⟩

end Bucket

namespace RateLimiter

variable {l : RateLimiter} {key : String} {now later n : Nat} {checks : List Check}

/-! ## Checks that are refused -/

/-- No check of a key was after an instant. -/
def UsedBy (l : RateLimiter) (key : String) (now : Nat) : Prop :=
  ∀ b, l.buckets.get? key = some b → b.updated ≤ now

theorem UsedBy.mono (h : l.UsedBy key now) (hlater : now ≤ later) : l.UsedBy key later :=
  fun b hb => (h b hb).trans hlater

private theorem usedBy_check (hl : l.limit.enabled = true) (key : String) (now : Nat) :
    (l.check key now).2.UsedBy key now := by
  intro b hb
  rw [check_eq hl, Table.get?_insert, if_pos rfl, Option.some_inj] at hb
  rw [← hb, Bucket.updated_spend]
  rfl

theorem UsedBy.check_other (hl : l.limit.enabled = true) {other : String} (hne : other ≠ key)
    (h : l.UsedBy key now) (instant : Nat) : (l.check other instant).2.UsedBy key now := by
  intro b hb
  rw [check_eq hl, Table.get?_insert, if_neg hne] at hb
  exact h b hb

private theorem UsedBy.bucketAt_refill (h : l.UsedBy key now) (hlater : now ≤ later) :
    (l.bucketAt key now).refill l.limit later = l.bucketAt key later := by
  unfold bucketAt
  cases hbucket : l.buckets.get? key with
  | none => simp [Bucket.refill, Bucket.full]
  | some b => exact Bucket.refill_refill l.limit (h b hbucket) hlater

private theorem UsedBy.available_eq (h : l.UsedBy key now) (hlater : now ≤ later) :
    l.available key later =
      min (l.available key now + (seconds later - seconds now) * l.limit.perSecond) l.limit.most := by
  have hupdated : (l.bucketAt key now).updated = now := rfl
  have helapsed : seconds (later - now) = seconds later - seconds now := by
    rw [eq_sub_iff_add_eq, ← seconds_add, Nat.sub_add_cancel hlater]
  rw [available, ← h.bucketAt_refill hlater, Bucket.level_refill, hupdated, helapsed, available]

private theorem Alike.check_refused (hl : l.limit.enabled = true) (h : l.UsedBy key now)
    (hrefused : (l.check key now).1 ≠ .ok ()) : Alike key now l (l.check key now).2 where
  limit := limit_check l key now
  bucketAt later hlater := by
    rw [check_eq hl, ne_eq, Bucket.verdict_eq_ok] at hrefused
    have hspend : (l.bucketAt key now).spend = l.bucketAt key now := if_neg hrefused
    rw [bucketAt_check_self hl, hspend, h.bucketAt_refill hlater]

private theorem Alike.checks_refused (hl : l.limit.enabled = true) (h : l.UsedBy key now)
    (hsorted : checks.Pairwise (·.now ≤ ·.now)) (hspan : ∀ c ∈ checks, now ≤ c.now ∧ c.now ≤ later)
    (hrefused : ∀ a ∈ answers l (checks.map .check), a.1.key = key → a.2 ≠ .ok ()) :
    Alike key later l (l.afterAll (checks.map .check)) := by
  -- After a check of the key no check of it was later than that one, and what other keys do keeps this.
  induction checks generalizing l now with
  | nil => exact ⟨rfl, fun _ _ => rfl⟩
  | cons c checks ih =>
    obtain ⟨hc, htail⟩ := List.pairwise_cons.mp hsorted
    obtain ⟨hnow, hlater⟩ := hspan c List.mem_cons_self
    have hrest : ∀ d ∈ checks, c.now ≤ d.now ∧ d.now ≤ later :=
      fun d hd => ⟨hc d hd, (hspan d (List.mem_cons_of_mem c hd)).2⟩
    have hrefused' : ∀ a ∈ answers (l.after (.check c)) (checks.map .check), a.1.key = key → a.2 ≠ .ok () :=
      fun a ha => hrefused a (List.mem_cons_of_mem _ ha)
    have hl' := enabled_after hl (.check c)
    by_cases hkey : c.key = key
    · subst hkey
      have hfirst := Alike.check_refused hl (h.mono hnow) (hrefused _ List.mem_cons_self rfl)
      exact (hfirst.mono hlater).trans (ih hl' (usedBy_check hl c.key c.now) htail hrest hrefused')
    · have hfirst : Alike key later l (l.after (.check c)) := Alike.check_other hl hkey
      exact hfirst.trans (ih hl' ((h.mono hnow).check_other hl hkey c.now) htail hrest hrefused')

/-! ## Tokens that are waited for -/

private theorem available_after_le (hl : l.limit.enabled = true) (key : String) (c : Check) :
    (l.after (.check c)).available key c.now ≤ l.available key c.now := by
  by_cases hkey : c.key = key
  · subst hkey
    rw [after, available_check hl]
    split <;> linarith
  · rw [after, available, bucketAt_check_other hl hkey, available]

private theorem available_afterAll_le (hl : l.limit.enabled = true) (key : String)
    (hsorted : checks.Pairwise (·.now ≤ ·.now)) (hspan : ∀ c ∈ checks, now ≤ c.now ∧ c.now ≤ later)
    (hlater : now ≤ later) :
    (l.afterAll (checks.map .check)).available key later ≤
      l.available key now + (seconds later - seconds now) * l.limit.perSecond := by
  induction checks generalizing l now with
  | nil => exact available_le l key hlater
  | cons c checks ih =>
    obtain ⟨hc, htail⟩ := List.pairwise_cons.mp hsorted
    obtain ⟨hnow, hend⟩ := hspan c List.mem_cons_self
    have hrest := ih (enabled_after hl (.check c)) htail
      (fun d hd => ⟨hc d hd, (hspan d (List.mem_cons_of_mem c hd)).2⟩) hend
    rw [limit_after] at hrest
    calc (l.afterAll ((c :: checks).map .check)).available key later
        ≤ (l.after (.check c)).available key c.now + (seconds later - seconds c.now) * l.limit.perSecond := hrest
      _ ≤ l.available key c.now + (seconds later - seconds c.now) * l.limit.perSecond := by
          linarith [available_after_le hl key c]
      _ ≤ l.available key now + (seconds later - seconds now) * l.limit.perSecond := by
          linarith [available_le l key hnow]

private theorem available_of_refused (hl : l.limit.enabled = true) (h : (l.check key now).1 = .error n) :
    1 ≤ n ∧ 1 ≤ (l.check key now).2.available key now + n * l.limit.perSecond ∧
      (l.check key now).2.available key now + (n - 1) * l.limit.perSecond < 1 := by
  have hkept : (l.check key now).2.available key now = (l.bucketAt key now).level := by
    rw [available_check hl, h, if_neg (by simp), sub_zero, available]
  rw [check_eq hl, Bucket.verdict] at h
  split at h
  · cases h
  · rename_i hless
    cases h
    rw [hkept]
    exact ⟨le_max_right _ 1, Bucket.wait_bounds l.limit (not_le.mp hless)⟩

private theorem admitted_after_wait (hl : l.limit.enabled = true) (h : (l.check key now).1 = .error n)
    (hsorted : checks.Pairwise (·.now ≤ ·.now)) (hspan : ∀ c ∈ checks, now ≤ c.now ∧ c.now ≤ later)
    (hrefused : ∀ a ∈ answers (l.check key now).2 (checks.map .check), a.1.key = key → a.2 ≠ .ok ())
    (hlater : now ≤ later) (hwait : seconds now + n ≤ seconds later) :
    (((l.check key now).2.afterAll (checks.map .check)).check key later).1 = .ok () := by
  have hl' : (l.check key now).2.limit.enabled = true := by rw [limit_check, hl]
  have hl'' : ((l.check key now).2.afterAll (checks.map .check)).limit.enabled = true := by rw [limit_afterAll, hl']
  have hused := usedBy_check hl key now
  have hsame := Alike.checks_refused hl' hused hsorted hspan hrefused
  have henough := (available_of_refused hl h).2.1
  have htime : n * l.limit.perSecond ≤ (seconds later - seconds now) * l.limit.perSecond :=
    mul_le_mul_of_nonneg_right (by linarith) l.limit.perSecond_pos.le
  rw [check_eq_ok_iff hl'', available, hsame.bucketAt later le_rfl, ← available, hused.available_eq hlater,
    limit_check, le_min_iff]
  exact ⟨by linarith, l.limit.one_le_most⟩

private theorem refused_before_wait (hl : l.limit.enabled = true) (h : (l.check key now).1 = .error n)
    (hsorted : checks.Pairwise (·.now ≤ ·.now)) (hspan : ∀ c ∈ checks, now ≤ c.now ∧ c.now ≤ later)
    (hlater : now ≤ later) (hearly : seconds later < seconds now + (n - 1)) :
    (((l.check key now).2.afterAll (checks.map .check)).check key later).1 ≠ .ok () := by
  have hl' : (l.check key now).2.limit.enabled = true := by rw [limit_check, hl]
  have hl'' : ((l.check key now).2.afterAll (checks.map .check)).limit.enabled = true := by rw [limit_afterAll, hl']
  have htight := (available_of_refused hl h).2.2
  have hgained := available_afterAll_le hl' key hsorted hspan hlater
  have htime : (seconds later - seconds now) * l.limit.perSecond ≤ (n - 1) * l.limit.perSecond :=
    mul_le_mul_of_nonneg_right (by linarith) l.limit.perSecond_pos.le
  rw [limit_check] at hgained
  rw [ne_eq, check_eq_ok_iff hl'', not_le]
  linarith

/-! ## Runs -/

private theorem answers_eq_append {answered others : List (Check × Except Nat Unit)}
    (h : answers l (checks.map .check) = answered ++ others) :
    checks = answered.map Prod.fst ++ others.map Prod.fst ∧
      answers l ((answered.map Prod.fst).map .check) = answered ∧
      answers (l.afterAll ((answered.map Prod.fst).map .check)) ((others.map Prod.fst).map .check) = others := by
  have hchecks : checks = answered.map Prod.fst ++ others.map Prod.fst := by
    rw [← map_fst_answers l checks, h, List.map_append]
  have hlength : (answers l ((answered.map Prod.fst).map .check)).length = answered.length := by
    rw [← List.length_map (f := Prod.fst), map_fst_answers, List.length_map]
  rw [hchecks, List.map_append, answers_append] at h
  exact ⟨hchecks, List.append_inj h hlength⟩

/-- Checks of an enabled limiter that is new, at instants one after the other. Whoever is refused is told to come
again after at least a second. The first one of the key to come then is admitted, however often it was refused in the
meantime, and whoever comes more than a second earlier is refused again. -/
theorem retry_sufficient_and_tight {r : RateLimit} (hr : r.enabled = true) {checks : List Check}
    (hsorted : checks.Pairwise (·.now ≤ ·.now)) {before rest : List (Check × Except Nat Unit)} {c : Check} {n : Nat}
    (h : answers (.new r) (checks.map .check) = before ++ (c, .error n) :: rest) :
    1 ≤ n ∧
      ∀ between d answer after, rest = between ++ (d, answer) :: after → d.key = c.key →
        (seconds c.now + n ≤ seconds d.now → (∀ a ∈ between, a.1.key = c.key → a.2 ≠ .ok ()) → answer = .ok ()) ∧
        (seconds d.now < seconds c.now + (n - 1) → ∃ k, answer = .error k) := by
  obtain ⟨hchecks, -, hanswers⟩ := answers_eq_append h
  let l := (new r).afterAll ((before.map Prod.fst).map .check)
  have hl : l.limit.enabled = true := by rw [limit_afterAll, ← hr, new]
  obtain ⟨hfirst, hrest⟩ := List.cons_eq_cons.mp hanswers
  have hrefused : (l.check c.key c.now).1 = .error n := congrArg Prod.snd hfirst
  refine ⟨(available_of_refused hl hrefused).1, ?_⟩
  rintro between d answer after rfl hkey
  obtain ⟨-, hbetween, hlast⟩ := answers_eq_append hrest
  let l' := (l.check c.key c.now).2.afterAll ((between.map Prod.fst).map .check)
  have hanswer : (l'.check c.key d.now).1 = answer := by
    rw [← hkey]
    exact congrArg Prod.snd (List.cons_eq_cons.mp hlast).1
  rw [hchecks, List.pairwise_append] at hsorted
  obtain ⟨hc, hsorted⟩ := List.pairwise_cons.mp hsorted.2.1
  rw [List.map_append, List.pairwise_append] at hsorted
  obtain ⟨hsorted, -, hd⟩ := hsorted
  have hlater : c.now ≤ d.now := hc d (by simp)
  have hspan : ∀ b ∈ between.map Prod.fst, c.now ≤ b.now ∧ b.now ≤ d.now := by
    intro b hb
    exact ⟨hc b (by rw [List.map_append]; exact List.mem_append_left _ hb), hd b hb d (by simp)⟩
  constructor
  · intro hwait hnone
    rw [← hanswer]
    exact admitted_after_wait hl hrefused hsorted hspan (hbetween.symm ▸ hnone) hlater hwait
  · intro hearly
    have hagain := refused_before_wait hl hrefused hsorted hspan hlater hearly
    rw [hanswer] at hagain
    cases answer with
    | error k => exact ⟨k, rfl⟩
    | ok _ => exact absurd rfl hagain

/-- Forty a minute and one at once: a key that is refused is told to come again after two seconds. It is refused
again before the first of them is over, and admitted when both are. -/
theorem refused_then_admitted :
    let checks : List Check :=
      [⟨"acme", 0⟩, ⟨"acme", 0⟩, ⟨"globex", 500000000⟩, ⟨"acme", 900000000⟩, ⟨"acme", 2000000000⟩]
    let answered := answers (.new ⟨true, 40, 1⟩) (checks.map .check)
    answered[1]? = some (⟨"acme", 0⟩, .error 2) ∧ 1 ≤ 2 ∧
      (seconds 900000000 < seconds 0 + ((2 : Nat) - 1) ∧ ∃ k, answered[3]? = some (⟨"acme", 900000000⟩, .error k)) ∧
      seconds 0 + (2 : Nat) ≤ seconds 2000000000 ∧ answered[4]? = some (⟨"acme", 2000000000⟩, .ok ()) := by
  intro checks answered
  have hanswers : answered =
      [(⟨"acme", 0⟩, .ok ())] ++ (⟨"acme", 0⟩, .error 2) :: [(⟨"globex", 500000000⟩, .ok ()),
        (⟨"acme", 900000000⟩, .error 1), (⟨"acme", 2000000000⟩, .ok ())] := by
    decide +kernel
  obtain ⟨hone, hagain⟩ := retry_sufficient_and_tight rfl (by decide) hanswers
  have hearly : seconds 900000000 < seconds 0 + ((2 : Nat) - 1) := by norm_num [seconds]
  have hwait : seconds 0 + (2 : Nat) ≤ seconds 2000000000 := by norm_num [seconds]
  obtain ⟨k, hrefused⟩ := (hagain [(⟨"globex", 500000000⟩, .ok ())] _ _ _ rfl rfl).2 hearly
  have hadmitted :=
    (hagain [(⟨"globex", 500000000⟩, .ok ()), (⟨"acme", 900000000⟩, .error 1)] _ _ _ rfl rfl).1 hwait (by simp)
  rw [hanswers]
  exact ⟨rfl, hone, ⟨hearly, k, congrArg (fun x => some (_, x)) hrefused⟩, hwait,
    congrArg (fun x => some (_, x)) hadmitted⟩

end RateLimiter

end AuditTrail
