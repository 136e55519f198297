import AuditTrail.Proofs.Gateway.ReadBack
import AuditTrail.Proofs.Number.Integers
import AuditTrail.Proofs.Retention.Job
/-!
# Periods that are too long

Every period of at least one day is accepted. When its days before the present would go back beyond the first
instant, a request to clean up ends without an answer, and the job ends at the first tenant.
-/

namespace AuditTrail

private theorem RetentionPolicy.ofDays_eq_ok {days : Nat} (h : days ≠ 0) : ofDays days = .ok ⟨days⟩ := if_neg h

namespace Gateway

open Http Pipeline

variable {g h : Gateway} {m : Moment} {r : Request} {ctx : Context} {policy : RetentionPolicy} {days : Nat}

/-! ## Reading the request -/

private theorem digit_of_mem_toString {c : Char} (h : c ∈ (toString days).toList) : 48 ≤ c.toNat ∧ c.toNat ≤ 57 := by
  have hdigit := isDigit_of_mem_toString h
  simp only [Char.isDigit, Bool.and_eq_true, decide_eq_true_eq, ge_iff_le, UInt32.le_iff_toNat_le] at hdigit
  exact hdigit

private theorem plain_of_mem_bytes_toString {b : UInt8} (h : b ∈ Text.bytes (toString days)) :
    b ∉ ['%'.toUInt8, '+'.toUInt8, '&'.toUInt8] := by
  rw [Text.bytes_ascii fun c hc => (digit_of_mem_toString hc).2.trans_lt (by decide)] at h
  obtain ⟨c, hc, rfl⟩ := List.mem_map.mp h
  have hdigit := digit_of_mem_toString hc
  have hnumber : (UInt8.ofNat c.toNat).toNat = c.toNat := by
    rw [UInt8.toNat_ofNat']
    omega
  intro hmem
  simp only [List.mem_cons, List.not_mem_nil, or_false, ← UInt8.toNat_inj, hnumber] at hmem
  have hseparators : '%'.toUInt8.toNat = 37 ∧ '+'.toUInt8.toNat = 43 ∧ '&'.toUInt8.toNat = 38 := by decide
  omega

private theorem parts_of_cleanup (htarget : r.target = "/api/v1/logs/cleanup?days=" ++ toString days) :
    r.segments = ["", "api", "v1", "logs", "cleanup"] ∧ r.query = [("days", toString days)] := by
  have hparts : r.target = "/api/v1/logs/cleanup" ++ "?" ++ ("days" ++ "=" ++ toString days) := by
    rw [htarget]
    simp only [← String.append_assoc]
    rfl
  have hpath : ∀ c ∈ "/api/v1/logs/cleanup".toList, c ≠ '#' ∧ c ≠ '?' := by simp
  have hquery : '#' ∉ ("days" ++ "=" ++ toString days).toList := by
    rw [String.toList_append, List.mem_append, not_or]
    exact ⟨by decide, fun hmem => absurd (digit_of_mem_toString hmem) (by decide)⟩
  obtain ⟨hsegments, hparsed⟩ := parts_of_query hparts hpath hquery
  constructor
  · rw [hsegments]
    decide +kernel
  · rw [hparsed]
    apply parseQuery_pair
    · decide +kernel
    · exact fun b hb => plain_of_mem_bytes_toString hb

private theorem readPolicy_days (hdays : days ≠ 0) (hword : days < wordBound 32)
    (hquery : r.query = [("days", toString days)]) : readPolicy r = pure ⟨days⟩ := by
  have hvalue : parameters? ["days"] r.query = some ([("days", toString days)].lookup ·) := by
    rw [hquery]
    rfl
  have hlookup : [("days", toString days)].lookup "days" = some (toString days) := rfl
  simp only [readPolicy, readParameters, hvalue, pure_bind, hlookup, parseNatural_decimal hword,
    RetentionPolicy.ofDays_eq_ok hdays]
  rfl

/-! ## Serving it -/

private theorem ends_outcome {α : Type} (a : Action α) (p : Pipeline) :
    Ends a p (fun x _ => (outcome a p).1 = .ok x) fun f _ => (outcome a p).1 = .error f := by
  rcases hrun : outcome a p with ⟨f | x, q⟩
  · exact ends_of_error hrun rfl
  · exact ends_of_ok hrun rfl

private theorem ends_cleanUp_purge
    (hauth : ((authenticate m r).run.run g : Except Refusal Context × Gateway) = (.ok ctx, h))
    (hpolicy : readPolicy r = pure policy) :
    Ends (cleanUp m r) g
      (fun a _ => ∃ n, (outcome (purge m.now ctx policy) h.pipeline).1 = .ok n ∧
        a = .json 200 (.object [("purged", .nat n), ("days", .nat policy.days)]))
      fun refusal _ => ∃ f, (outcome (purge m.now ctx policy) h.pipeline).1 = .error f ∧ refusal = .failure f := by
  have hlet : Ends (authenticate m r) g (fun c k => ctx = c ∧ h = k) fun _ _ => False := by
    rw [Ends, hauth]
    exact ⟨rfl, rfl⟩
  apply hlet.bind _ fun _ _ h => h.elim
  rintro _ _ ⟨rfl, rfl⟩
  rw [hpolicy, pure_bind]
  have hperform : Ends (perform (purge m.now ctx policy)) h
      (fun n _ => (outcome (purge m.now ctx policy) h.pipeline).1 = .ok n)
      fun refusal _ => ∃ f, (outcome (purge m.now ctx policy) h.pipeline).1 = .error f ∧ refusal = .failure f := by
    apply Ends.adapt
    apply (ends_withPipeline (ends_outcome (purge m.now ctx policy) h.pipeline)).mono
    · rintro n _ ⟨_, _, hn⟩
      exact hn
    · rintro f _ ⟨_, _, hf⟩
      exact ⟨f, hf, rfl⟩
  apply hperform.bind _ fun _ _ h => h
  intro n k hn
  exact .pure ⟨n, hn, rfl⟩

private theorem served_cleanup (hdays : days ≠ 0) (hword : days < wordBound 32) (hmethod : r.method = .delete)
    (htarget : r.target = "/api/v1/logs/cleanup?days=" ++ toString days)
    (hauth : ((authenticate m r).run.run g : Except Refusal Context × Gateway) = (.ok ctx, h))
    (hpurgeable : h.pipeline.purgeable 0 = true) :
    ((RetentionPolicy.mk days).InRange m.now → ∃ n,
        (served m r g).1 = some (.json 200 (.object [("purged", .nat n), ("days", .nat days)]))) ∧
      (¬(RetentionPolicy.mk days).InRange m.now → (served m r g).1 = none) := by
  obtain ⟨hsegments, hquery⟩ := parts_of_cleanup htarget
  have hroute : Route.ofSegments? r.segments = some .eventCleanup := by rw [hsegments]; rfl
  have hserve : serveRoute m r .eventCleanup = cleanUp m r := by
    rw [serveRoute_of_mem (by rw [hmethod]; decide), hmethod]
    rfl
  obtain ⟨tenant, hctx⟩ : ∃ tenant, ctx.tenant = some tenant := by
    have hends := ends_authenticate m r g
    rw [Ends, hauth] at hends
    obtain ⟨-, key, t, -, -, rfl⟩ := hends
    exact ⟨t.id, rfl⟩
  have hends := ends_cleanUp_purge hauth (readPolicy_days hdays hword hquery)
  rw [← hserve] at hends
  have hserved := served_of_ends (by rw [hmethod]; decide) hroute hends
  constructor
  · intro hrange
    obtain ⟨cutoff, hcutoff⟩ := RetentionPolicy.exists_cutoff_iff.mpr hrange
    rw [outcome_purge hctx hcutoff hpurgeable] at hserved
    rcases hserved with ⟨a, ha, n, -, rfl⟩ | ⟨refusal, -, f, hf, -⟩
    · exact ⟨n, ha⟩
    · cases hf
  · intro hrange
    rw [outcome_purge_outOfRange hctx (RetentionPolicy.cutoff?_eq_none.mpr hrange)] at hserved
    rcases hserved with ⟨a, -, n, hn, -⟩ | ⟨refusal, hrefused, f, hf, rfl⟩
    · cases hn
    · cases hf
      exact hrefused

/-- Every period of at least one day that fits a word of 32 bits is accepted. It has a cutoff, a request to clean up
of a tenant who is let in is answered, and the job comes to its end, all just as long as the days before the present
do not go back beyond the first instant. When they do, the request gets no answer and the job ends at the first
tenant. -/
theorem period_survived_iff {days : Nat} (hdays : 1 ≤ days) (hword : days < wordBound 32) (now : Instant) :
    let policy : RetentionPolicy := ⟨days⟩
    RetentionPolicy.ofDays days = .ok policy ∧
    (policy.InRange now ↔ (minSecond + days * 86400) * 1000000000 ≤ now.sinceEpoch) ∧
    ((∃ cutoff, policy.cutoff? now = some cutoff) ↔ policy.InRange now) ∧
    (∀ (m : Moment) (r : Request) (g h : Gateway) (ctx : Context), m.now = now → r.method = .delete →
      r.target = "/api/v1/logs/cleanup?days=" ++ toString days →
      ((authenticate m r).run.run g : Except Refusal Context × Gateway) = (.ok ctx, h) → h.pipeline.purgeable 0 = true →
      (policy.InRange now → ∃ n,
        (served m r g).1 = some (.json 200 (.object [("purged", .nat n), ("days", .nat days)]))) ∧
      (¬policy.InRange now → (served m r g).1 = none)) ∧
    ∀ p : Pipeline, p.outages.fails .tenantsList 0 = false →
      (policy.InRange now → ∃ n, (outcome (runRetention now policy) p).1 = .ok n) ∧
      (¬policy.InRange now →
        (outcome (runRetention now policy) p).1 = if p.registry.list = [] then .ok 0 else .error .outOfRange) := by
  have hpositive : days ≠ 0 := by omega
  refine ⟨RetentionPolicy.ofDays_eq_ok hpositive, Iff.rfl, RetentionPolicy.exists_cutoff_iff, ?_, ?_⟩
  · rintro m r g h ctx rfl hmethod htarget hauth hpurgeable
    exact served_cleanup hpositive hword hmethod htarget hauth hpurgeable
  · intro p hup
    constructor
    · intro hrange
      obtain ⟨cutoff, hcutoff⟩ := RetentionPolicy.exists_cutoff_iff.mpr hrange
      have hends := ends_runRetention hcutoff p
      rcases hrun : outcome (runRetention now ⟨days⟩) p with ⟨f | n, q⟩
      · have hstruck := (failed_of_outcome hends hrun).1
        rw [hup] at hstruck
        cases hstruck
      · exact ⟨n, rfl⟩
    · intro hbefore
      exact runRetention_outOfRange (RetentionPolicy.cutoff?_eq_none.mpr hbefore) hup

/-- Somebody asks for everything to be kept for as long as a word of 32 bits can say. -/
def longestPeriod : Request :=
  ⟨.delete, "/api/v1/logs/cleanup?days=4294967295", [("X-API-Key", Tenant.acme.apiKey)], ""⟩

/-- The request gets no answer, and the job with this period does not come to its end. -/
theorem longest_period_not_survived :
    RetentionPolicy.ofDays 4294967295 = .ok ⟨4294967295⟩ ∧
      (served .first longestPeriod (ofAcme ⟨false, 100, 10⟩)).1 = none ∧
      (outcome (runRetention .epoch ⟨4294967295⟩) (ofAcme ⟨false, 100, 10⟩).pipeline).1 = .error .outOfRange := by
  obtain ⟨haccepted, -, -, hserved, hran⟩ :=
    period_survived_iff (by decide : 1 ≤ 4294967295) (by decide) Instant.epoch
  have hbefore : ¬(RetentionPolicy.mk 4294967295).InRange .epoch := by decide
  refine ⟨haccepted, ?_, ?_⟩
  · let key : ApiKey := ⟨Tenant.acme.apiKey, by decide⟩
    have hreachable : Reachable { adminKey := some "sesame" } ⟨false, 100, 10⟩ (ofAcme ⟨false, 100, 10⟩) := .new _
    have hletsIn : LetsIn (ofAcme ⟨false, 100, 10⟩) key .acme := ⟨hreachable.faithful, rfl, rfl, rfl⟩
    have hkey : Presents longestPeriod key.text := presents_acme rfl
    have hends := ends_authenticate_letIn hletsIn .first (extract_of_presents hkey)
    unfold Ends at hends
    split at hends
    · rename_i ctx h hauth
      obtain ⟨-, hkept⟩ := hends
      have hup : h.pipeline.outages = .empty := hkept.stores.outages rfl
      have hpurgeable : h.pipeline.purgeable 0 = true := by
        rw [purgeable, hup, hkept.stores.records]
        rfl
      exact (hserved .first longestPeriod _ h ctx rfl rfl (by decide +kernel) hauth hpurgeable).2 hbefore
    · exact hends.elim
  · have hlist : (ofAcme ⟨false, 100, 10⟩).pipeline.registry.list = [.acme] := List.mergeSort_singleton _
    rw [(hran _ rfl).2 hbefore, hlist]
    rfl

end Gateway

end AuditTrail
