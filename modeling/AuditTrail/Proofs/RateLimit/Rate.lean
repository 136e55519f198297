import AuditTrail.Proofs.RateLimit.Buckets
/-!
# How many checks are admitted

In any stretch of time a key is admitted no more often than its bucket holds tokens at first and time brings
tokens meanwhile, whatever other keys are checked. Those do not even matter to the answers that the key gets.
-/

namespace AuditTrail

namespace RateLimiter

structure Check where
  key : String
  now : Nat
  deriving DecidableEq

/-- What is done with a limiter: a key is checked, or the keys that have not been used for some time are forgotten. -/
inductive Call where
  | check (c : Check)
  | cleanup (maxAge now : Nat)

namespace Call

def now : Call → Nat
  | check c => c.now
  | cleanup _ now => now

def isCheck : Call → Bool
  | check _ => true
  | cleanup _ _ => false

end Call

def after (l : RateLimiter) : Call → RateLimiter
  | .check c => (l.check c.key c.now).2
  | .cleanup maxAge now => l.cleanup maxAge now

def afterAll (l : RateLimiter) (calls : List Call) : RateLimiter := calls.foldl after l

/-- The checks among some calls, with their answers. -/
def answers : RateLimiter → List Call → List (Check × Except Nat Unit)
  | _, [] => []
  | l, .check c :: calls => (c, (l.check c.key c.now).1) :: answers (l.after (.check c)) calls
  | l, .cleanup maxAge now :: calls => answers (l.after (.cleanup maxAge now)) calls

/-- How often a key was admitted between two instants, in seconds. -/
def admissions (answered : List (Check × Except Nat Unit)) (key : String) (start finish : ℚ) : Nat :=
  answered.countP fun a =>
    decide (a.1.key = key ∧ a.2 = .ok () ∧ start ≤ seconds a.1.now ∧ seconds a.1.now ≤ finish)

variable {l m : RateLimiter} {key : String} {start finish : ℚ} {c : Check} {checks : List Check}

theorem limit_after (l : RateLimiter) (call : Call) : (l.after call).limit = l.limit := by
  cases call with
  | check c => exact limit_check l c.key c.now
  | cleanup maxAge now => rfl

theorem limit_afterAll (l : RateLimiter) (calls : List Call) : (l.afterAll calls).limit = l.limit := by
  induction calls generalizing l with
  | nil => rfl
  | cons call calls ih => exact (ih _).trans (limit_after l call)

theorem enabled_after (hl : l.limit.enabled = true) (call : Call) : (l.after call).limit.enabled = true := by
  rw [limit_after, hl]

theorem answers_append (l : RateLimiter) (calls others : List Call) :
    answers l (calls ++ others) = answers l calls ++ answers (l.afterAll calls) others := by
  induction calls generalizing l with
  | nil => rfl
  | cons call calls ih =>
    cases call with
    | check c => exact congrArg _ (ih _)
    | cleanup maxAge now => exact ih _

/-! ## Tokens that are spent -/

theorem map_fst_answers (l : RateLimiter) (checks : List Check) :
    (answers l (checks.map .check)).map Prod.fst = checks := by
  induction checks generalizing l with
  | nil => rfl
  | cons c checks ih => exact congrArg (c :: ·) (ih _)

private theorem admissions_eq_zero (hsorted : (c :: checks).Pairwise (·.now ≤ ·.now)) (h : finish < seconds c.now) :
    admissions (answers l ((c :: checks).map .check)) key start finish = 0 := by
  rw [admissions, List.countP_eq_zero]
  intro a ha
  have hmem : a.1 ∈ c :: checks := map_fst_answers l (c :: checks) ▸ List.mem_map_of_mem ha
  have hnow : c.now ≤ a.1.now := by
    rcases List.mem_cons.mp hmem with heq | hmem
    · rw [heq]
    · exact List.rel_of_pairwise_cons hsorted hmem
  simp [not_le.mpr (h.trans_le (seconds_mono hnow))]

/-- A check that is counted has taken a token of the key. -/
private theorem admissions_cons_le (hl : l.limit.enabled = true) (key : String) (start finish : ℚ) (c : Check)
    (rest : List (Check × Except Nat Unit)) :
    (admissions ((c, (l.check c.key c.now).1) :: rest) key start finish : ℚ) +
        (l.after (.check c)).available key c.now ≤
      admissions rest key start finish + l.available key c.now := by
  simp only [admissions, List.countP_cons, Nat.cast_add, Nat.cast_ite, Nat.cast_one, Nat.cast_zero,
    decide_eq_true_eq]
  rw [add_assoc]
  apply add_le_add_right
  by_cases hkey : c.key = key
  · subst hkey
    rw [after, available_check hl]
    split_ifs <;> grind
  · have hother : (l.after (.check c)).available key c.now = l.available key c.now := by
      rw [after, available, bucketAt_check_other hl hkey, available]
    simp [hkey, hother]

private theorem budget_nonneg {now : Nat} (hfinish : seconds now ≤ finish) :
    0 ≤ l.available key now + (finish - seconds now) * l.limit.perSecond :=
  add_nonneg (Bucket.level_nonneg _) (mul_nonneg (sub_nonneg.mpr hfinish) l.limit.perSecond_pos.le)

/-- From an instant on, a key is admitted no more often than it has tokens then and gets tokens until the end. -/
private theorem admissions_le_available (hl : l.limit.enabled = true) (key : String) (start : ℚ)
    (hsorted : checks.Pairwise (·.now ≤ ·.now))
    {now : Nat} (hlater : ∀ c ∈ checks, now ≤ c.now) (hfinish : seconds now ≤ finish) :
    (admissions (answers l (checks.map .check)) key start finish : ℚ) ≤
      l.available key now + (finish - seconds now) * l.limit.perSecond := by
  induction checks generalizing l now with
  | nil => simpa [answers, admissions] using budget_nonneg hfinish
  | cons c checks ih =>
    obtain ⟨hc, htail⟩ := List.pairwise_cons.mp hsorted
    have hnow : now ≤ c.now := hlater c List.mem_cons_self
    by_cases hin : seconds c.now ≤ finish
    · -- The budget from the check on pays for it and for those that follow.
      have hrest := ih (enabled_after hl (.check c)) htail hc hin
      have htaken := admissions_cons_le hl key start finish c (answers (l.after (.check c)) (checks.map .check))
      have hgained := available_le l key hnow
      rw [limit_after] at hrest
      calc (admissions (answers l ((c :: checks).map .check)) key start finish : ℚ)
          ≤ l.available key c.now + (finish - seconds c.now) * l.limit.perSecond := by
            rw [List.map_cons, answers]
            linarith
        _ ≤ l.available key now + (finish - seconds now) * l.limit.perSecond := by linarith
    · rw [admissions_eq_zero hsorted (not_le.mp hin)]
      exact_mod_cast budget_nonneg hfinish

/-- In any stretch of time, a key is admitted no more often than a full bucket and the time allow. -/
theorem admissions_le_most (hl : l.limit.enabled = true) (key : String)
    (hsorted : checks.Pairwise (·.now ≤ ·.now)) (hspan : start ≤ finish) :
    (admissions (answers l (checks.map .check)) key start finish : ℚ) ≤
      l.limit.most + (finish - start) * l.limit.perSecond := by
  have hbudget (l : RateLimiter) : 0 ≤ l.limit.most + (finish - start) * l.limit.perSecond :=
    add_nonneg (Nat.cast_nonneg _) (mul_nonneg (sub_nonneg.mpr hspan) l.limit.perSecond_pos.le)
  induction checks generalizing l with
  | nil => simpa [answers, admissions] using hbudget l
  | cons c checks ih =>
    obtain ⟨hc, htail⟩ := List.pairwise_cons.mp hsorted
    by_cases hbefore : seconds c.now < start
    · have hrest := ih (enabled_after hl (.check c)) htail
      rw [limit_after] at hrest
      simpa [answers, admissions, not_le.mpr hbefore] using hrest
    · by_cases hin : seconds c.now ≤ finish
      · have hlater : ∀ d ∈ c :: checks, c.now ≤ d.now := by
          simpa using hc
        have hspent := admissions_le_available hl key start hsorted hlater hin
        have hmost := available_le_most l key c.now
        have htime : (finish - seconds c.now) * l.limit.perSecond ≤ (finish - start) * l.limit.perSecond :=
          mul_le_mul_of_nonneg_right (by linarith) l.limit.perSecond_pos.le
        linarith
      · rw [admissions_eq_zero hsorted (not_le.mp hin)]
        exact_mod_cast hbudget l

/-! ## What is in a bucket -/

/-- No bucket holds more than it may. -/
def Filled (l : RateLimiter) : Prop := ∀ key b, l.buckets.get? key = some b → b.level ≤ l.limit.most

theorem Filled.after (hl : l.limit.enabled = true) (h : l.Filled) (call : Call) : (l.after call).Filled := by
  intro key b hb
  rw [limit_after]
  cases call with
  | check c =>
    rw [RateLimiter.after, check_eq hl, Table.get?_insert] at hb
    split at hb
    · cases hb
      exact level_spend_le_most l c.key c.now
    · exact h key b hb
  | cleanup maxAge now => exact h key b (Table.get?_of_filter hb)

theorem Filled.afterAll (hl : l.limit.enabled = true) (h : l.Filled) (calls : List Call) :
    (l.afterAll calls).Filled := by
  induction calls generalizing l with
  | nil => exact h
  | cons call calls ih => exact ih (enabled_after hl call) (h.after hl call)

/-! ## Other keys -/

private theorem filter_answers (hl : l.limit.enabled = true) (h : Alike key 0 l m) :
    (answers l (checks.map .check)).filter (fun a => a.1.key = key) =
      answers m ((checks.filter fun c => c.key = key).map .check) := by
  induction checks generalizing l m with
  | nil => rfl
  | cons c checks ih =>
    by_cases hkey : c.key = key
    · subst hkey
      have hverdict := h.verdict hl (Nat.zero_le c.now)
      have hboth : Alike c.key 0 (l.after (.check c)) (m.after (.check c)) := h.check hl (Nat.zero_le c.now)
      have hrest := ih (enabled_after hl (.check c)) hboth
      simpa [answers, hverdict] using hrest
    · have hother : Alike key 0 (l.after (.check c)) m := (Alike.check_other hl hkey).symm.trans h
      have hrest := ih (enabled_after hl (.check c)) hother
      simpa [answers, hkey] using hrest

/-- Checks of an enabled limiter that is new, at instants one after the other. However long a stretch of time is,
a key is admitted no more often in it than a burst and the time allow; a check takes a token or none, and none that
its key does not have, so a bucket never holds less than nothing or more than a burst; and a key gets the same
answers whatever other keys are checked. -/
theorem checks_keep_to_rate {r : RateLimit} (hr : r.enabled = true) {checks : List Check}
    (hsorted : checks.Pairwise (·.now ≤ ·.now)) (key : String) :
    (∀ start length : ℚ, 0 ≤ length →
        (admissions (answers (.new r) (checks.map .check)) key start (start + length) : ℚ) ≤
          (max r.burst 1 : Nat) + length * (max r.requestsPerMinute 1 : Nat) / 60) ∧
      (∀ b, ((new r).afterAll (checks.map .check)).buckets.get? key = some b →
        0 ≤ b.level ∧ b.level ≤ (max r.burst 1 : Nat)) ∧
      (∀ before c rest, checks = before ++ c :: rest →
        let l := (new r).afterAll (before.map .check)
        let taken : ℚ := if (l.check c.key c.now).1 = .ok () then 1 else 0
        taken ≤ l.available c.key c.now ∧
          (l.after (.check c)).available c.key c.now = l.available c.key c.now - taken) ∧
      (answers (.new r) (checks.map .check)).filter (fun a => a.1.key = key) =
        answers (.new r) ((checks.filter fun c => c.key = key).map .check) := by
  refine ⟨fun start length hlength => ?_, fun b hb => ⟨b.level_nonneg, ?_⟩, ?_, ?_⟩
  · have hspan : start ≤ start + length := le_add_of_nonneg_right hlength
    have hspent := admissions_le_most (l := .new r) hr key hsorted hspan
    rw [add_sub_cancel_left] at hspent
    exact hspent.trans_eq (by rw [RateLimit.perSecond, mul_div_assoc]; rfl)
  · have hnew : (new r).Filled := by
      intro key b h
      cases h
    have hfilled := hnew.afterAll hr (checks.map .check) key b hb
    rwa [limit_afterAll] at hfilled
  · intro before c _ _ l taken
    have hl : l.limit.enabled = true := by rw [limit_afterAll, new, hr]
    exact ⟨taken_le_available hl, available_check hl⟩
  · exact filter_answers hr ⟨rfl, fun _ _ => rfl⟩

/-- Sixty a minute and two at once: within a second a key is admitted three times, which is all that the bound
allows, and the check of another key between does not count. -/
theorem admissions_of_a_second :
    let checks : List Check :=
      [⟨"acme", 0⟩, ⟨"globex", 0⟩, ⟨"acme", 0⟩, ⟨"acme", 0⟩, ⟨"acme", 1000000000⟩]
    let answered := answers (.new ⟨true, 60, 2⟩) (checks.map .check)
    answered.map Prod.snd = [.ok (), .ok (), .ok (), .error 1, .ok ()] ∧
      admissions answered "acme" 0 (0 + 1) = 3 ∧
      (admissions answered "acme" 0 (0 + 1) : ℚ) ≤ (max 2 1 : Nat) + 1 * (max 60 1 : Nat) / 60 :=
  ⟨by decide +kernel, by decide +kernel,
    (checks_keep_to_rate (r := ⟨true, 60, 2⟩) rfl (by decide) "acme").1 0 1 (by norm_num)⟩

end RateLimiter

end AuditTrail
