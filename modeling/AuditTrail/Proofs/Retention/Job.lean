import AuditTrail.Proofs.Retention.Purge
import Mathlib.Algebra.GroupWithZero.Nat
/-!
# Purges for all tenants

The job purges for the registered tenants, one after the other. Those whose purges fail keep their events for
another run, and the others lose just their old ones.
-/

namespace AuditTrail

namespace Event

variable {ids : List TenantId}

private theorem isOldOf_nil (cutoff : Instant) : isOldOf [] cutoff = fun _ => false := by
  funext e
  simp [isOldOf]

private theorem isOldOf_cons (id : TenantId) (ids : List TenantId) (cutoff : Instant) :
    isOldOf (id :: ids) cutoff = fun e => e.isOldOf [id] cutoff || e.isOldOf ids cutoff := by
  funext e
  simp [isOldOf, or_and_right]

private theorem countP_or (es : List Event) (test other : Event → Bool) :
    es.countP (fun e => test e || other e) = es.countP test + (es.filter fun e => !test e).countP other := by
  induction es with
  | nil => rfl
  | cons e es ih =>
    rw [List.countP_cons, List.countP_cons, List.filter_cons, ih]
    cases test e with
    | true =>
      simp only [Bool.true_or, Bool.not_true, Bool.false_eq_true, if_true, if_false]
      omega
    | false =>
      simp only [Bool.false_or, Bool.not_false, Bool.false_eq_true, if_true, if_false, List.countP_cons]
      omega

private theorem countP_isOldOf_cons (id : TenantId) (ids : List TenantId) (cutoff : Instant) (es : List Event) :
    es.countP (isOldOf (id :: ids) cutoff) =
      es.countP (isOldOf [id] cutoff) + (es.filter fun e => !e.isOldOf [id] cutoff).countP (isOldOf ids cutoff) := by
  rw [isOldOf_cons, countP_or]

private theorem countP_isOldOf (h : ids.Nodup) (cutoff : Instant) (es : List Event) :
    es.countP (isOldOf ids cutoff) = (ids.map fun id => es.countP (isOldOf [id] cutoff)).sum := by
  induction ids with
  | nil => simp [isOldOf_nil]
  | cons id ids ih =>
    rw [List.nodup_cons] at h
    have hapart : (es.filter fun e => !e.isOldOf [id] cutoff).countP (isOldOf ids cutoff) =
        es.countP (isOldOf ids cutoff) := by
      rw [List.countP_filter]
      apply List.countP_congr
      intro e _
      rw [Bool.and_eq_true, Bool.not_eq_true', ← Bool.not_eq_true, isOldOf_iff, isOldOf_iff, List.mem_singleton]
      constructor
      · exact fun hboth => hboth.1
      · intro hold
        exact ⟨hold, fun hown => h.1 (hown.1 ▸ hold.1)⟩
    rw [countP_isOldOf_cons, hapart, ih h.2, List.map_cons, List.sum_cons]

end Event

namespace Pipeline

open Event

variable {p q r : Pipeline} {now cutoff : Instant} {policy : RetentionPolicy} {t : Tenant}
  {tenants : List Tenant}

theorem SameStores.without (h : SameStores p q) (test : Event → Bool) :
    SameStores (p.without test) (q.without test) :=
  ⟨by rw [Pipeline.without, Pipeline.without, h.records], h.registry, h.index, h.queue, h.clock, h.outages⟩

private theorem without_without (p : Pipeline) (test other : Event → Bool) :
    (p.without test).without other = p.without fun e => test e || other e := by
  simp [Pipeline.without, EventTable.filter, List.filter_filter, Bool.and_comm]

/-! ## Tenants whose purges succeed -/

/-- The tenants among some whose purges get through, when one is purged after the other. -/
def gettingThrough (p : Pipeline) (tenants : List Tenant) : List Tenant :=
  (tenants.zipIdx.filter fun x => p.purgeable x.2).map Prod.fst

private theorem gettingThrough_sublist (p : Pipeline) (tenants : List Tenant) :
    (p.gettingThrough tenants).Sublist tenants := by
  conv => rhs; rw [← List.zipIdx_map_fst 0 tenants]
  exact List.filter_sublist.map _

private theorem gettingThrough_cons (hnext : ∀ n, q.purgeable n = p.purgeable (n + 1)) (t : Tenant)
    (tenants : List Tenant) :
    p.gettingThrough (t :: tenants) =
      if p.purgeable 0 then t :: q.gettingThrough tenants else q.gettingThrough tenants := by
  have hrest : ((tenants.zipIdx 1).filter fun x => p.purgeable x.2).map Prod.fst = q.gettingThrough tenants := by
    rw [List.zipIdx_succ, List.filter_map, List.map_map, gettingThrough]
    simp [Function.comp_def, hnext]
  rw [gettingThrough, List.zipIdx_cons, List.filter_cons]
  split
  · rw [List.map_cons, hrest]
  · exact hrest

private theorem gettingThrough_congr (h : ∀ n, q.purgeable n = p.purgeable n) (tenants : List Tenant) :
    q.gettingThrough tenants = p.gettingThrough tenants := by
  simp only [gettingThrough, h]

/-- It is a tenant's own purge that has to get through. -/
private theorem mem_gettingThrough_iff {tenants : List Tenant} (h : tenants.Nodup) {n : Nat}
    (ht : tenants[n]? = some t) :
    t ∈ p.gettingThrough tenants ↔ p.purgeable n = true := by
  simp only [gettingThrough, List.mem_map, List.mem_filter, Prod.exists, exists_and_right, exists_eq_right,
    List.mk_mem_zipIdx_iff_getElem?]
  constructor
  · rintro ⟨m, hm, hthrough⟩
    have hlt := (List.getElem?_eq_some_iff.mp ht).1
    rwa [(List.getElem?_inj hlt h).mp (ht.trans hm.symm)]
  · exact fun hthrough => ⟨n, ht, hthrough⟩

private theorem outcome_purgeOrSkip_ok {n : Nat} (h : outcome (purge now (.system t.id "") policy) p = (.ok n, q)) :
    outcome (purgeOrSkip now policy t) p = (.ok n, q) := by
  simp [purgeOrSkip, h]

private theorem outcome_purgeOrSkip_error {text : String}
    (h : outcome (purge now (.system t.id "") policy) p = (.error (.storeWrite text), q)) :
    outcome (purgeOrSkip now policy t) p = (.ok 0, q) := by
  simp only [purgeOrSkip, outcome_bind, outcome_tryCatch, h, proceed_error]
  rfl

private theorem outcome_purgeOrSkip_outOfRange (hcutoff : policy.cutoff? now = none) (t : Tenant) (p : Pipeline) :
    outcome (purgeOrSkip now policy t) p = (.error .outOfRange, p) := by
  have hpurge : outcome (purge now (.system t.id "") policy) p = _ := outcome_purge_outOfRange rfl hcutoff p
  simp only [purgeOrSkip, outcome_bind, outcome_tryCatch, hpurge]
  rfl

private theorem ends_purgeEach (hcutoff : policy.cutoff? now = some cutoff) (tenants : List Tenant) (p : Pipeline) :
    Ends (tenants.mapM (purgeOrSkip now policy)) p
      (fun counts q =>
        counts.sum = p.records.rows.events.countP (isOldOf ((p.gettingThrough tenants).map Tenant.id) cutoff) ∧
          SameStores (p.without (isOldOf ((p.gettingThrough tenants).map Tenant.id) cutoff)) q)
      fun _ _ => False := by
  -- Each tenant is purged for in what those before it have left, so the induction is for all pipelines.
  induction tenants generalizing p with
  | nil =>
    have hnone : p.without (isOldOf [] cutoff) = p := by
      simp [Pipeline.without, EventTable.filter, isOldOf_nil]
    rw [List.mapM_nil, gettingThrough, List.zipIdx_nil, List.filter_nil, List.map_nil, List.map_nil, hnone]
    exact .pure ⟨by simp [isOldOf_nil], refl p⟩
  | cons t tenants ih =>
    rw [List.mapM_cons]
    have hpurge : Ends (purge now (.system t.id "") policy) p _ _ := ends_purge_old rfl hcutoff p
    rcases hrun : outcome (purge now (.system t.id "") policy) p with ⟨f | n, q⟩
    · obtain ⟨hfails, ⟨text, rfl⟩, hq, hnext⟩ := failed_of_outcome hpurge hrun
      rw [gettingThrough_cons hnext, hfails]
      apply ends_bind_of_ok (outcome_purgeOrSkip_error hrun)
      apply (ih q).bind _ fun _ _ h => h
      rintro counts r ⟨hsum, hr⟩
      apply Ends.pure
      rw [List.sum_cons, hsum, hq.records, Nat.zero_add]
      exact ⟨rfl, Trans.trans (hq.without _) hr⟩
    · obtain ⟨hthrough, rfl, hq, hnext⟩ := done_of_outcome hpurge hrun
      rw [gettingThrough_cons hnext, hthrough, if_pos rfl]
      apply ends_bind_of_ok (outcome_purgeOrSkip_ok hrun)
      apply (ih q).bind _ fun _ _ h => h
      rintro counts r ⟨hsum, hr⟩
      apply Ends.pure
      constructor
      · rw [List.sum_cons, hsum, hq.records, List.map_cons, countP_isOldOf_cons]
        rfl
      · rw [List.map_cons, isOldOf_cons, ← without_without]
        exact Trans.trans (hq.without _) hr

private theorem oldCount_without (p : Pipeline) (ids : List TenantId) (id : TenantId) (cutoff : Instant) :
    (p.without (isOldOf ids cutoff)).oldCount id cutoff = if id ∈ ids then 0 else p.oldCount id cutoff := by
  rw [oldCount, Pipeline.without, EventTable.filter, List.countP_filter]
  split
  · rename_i hmem
    rw [List.countP_eq_zero]
    intro e _
    simp only [Bool.and_eq_true, Bool.not_eq_true', ← Bool.not_eq_true, isOldOf_iff, List.mem_singleton]
    rintro ⟨⟨rfl, hold⟩, hkept⟩
    exact hkept ⟨hmem, hold⟩
  · rename_i hmem
    apply List.countP_congr
    intro e _
    simp only [Bool.and_eq_true, Bool.not_eq_true', ← Bool.not_eq_true, isOldOf_iff, List.mem_singleton]
    constructor
    · exact fun hboth => hboth.1
    · rintro ⟨rfl, hold⟩
      exact ⟨⟨rfl, hold⟩, fun hother => hmem hother.1⟩

/-! ## Runs of the job -/

/-- The tenants that a run of the job purges for. -/
def served (p : Pipeline) : List Tenant := p.gettingThrough p.registry.list

private theorem served_sublist (p : Pipeline) : p.served.Sublist p.registry.list := p.gettingThrough_sublist _

private theorem served_called (p : Pipeline) : (p.called .tenantsList).gettingThrough p.registry.list = p.served :=
  gettingThrough_congr (fun n => by rw [purgeable_called, if_neg (by decide)]) _

private theorem ends_listTenants (p : Pipeline) :
    Ends listTenants p (fun tenants q => tenants = p.registry.list ∧ p.called .tenantsList = q)
      fun _ q => p.outages.fails .tenantsList 0 = true ∧ p.called .tenantsList = q := by
  have hpass := outcome_pass_called .tenantsList p
  by_cases hstruck : p.outages.fails .tenantsList 0 = true
  · have hrun : outcome listTenants p = (.error (Seam.failure .tenantsList), p.called .tenantsList) := by
      simp [listTenants, hpass, hstruck]
    exact ends_of_error hrun ⟨hstruck, rfl⟩
  · have hrun : outcome listTenants p = (.ok p.registry.list, p.called .tenantsList) := by
      simp [listTenants, hpass, hstruck, called]
    exact ends_of_ok hrun ⟨rfl, rfl⟩

private theorem outcome_runRetention (hup : p.outages.fails .tenantsList 0 = false) (now : Instant)
    (policy : RetentionPolicy) :
    outcome (runRetention now policy) p =
      proceed (outcome (p.registry.list.mapM (purgeOrSkip now policy)) (p.called .tenantsList)) fun counts q =>
        (.ok counts.sum, q) := by
  simp [runRetention, listTenants, outcome_pass_called, hup]
  rfl

/-- A run takes out the old events of the tenants whose purges succeed, and counts them. -/
theorem ends_runRetention (hcutoff : policy.cutoff? now = some cutoff) (p : Pipeline) :
    Ends (runRetention now policy) p
      (fun n q => n = (p.served.map fun t => p.oldCount t.id cutoff).sum ∧
        SameStores (p.without (isOldOf (p.served.map Tenant.id) cutoff)) q)
      fun _ q => p.outages.fails .tenantsList 0 = true ∧ SameStores p q := by
  have hcalled := sameStores_called p .tenantsList
  apply (ends_listTenants p).bind
  · rintro _ _ ⟨rfl, rfl⟩
    apply (ends_purgeEach hcutoff _ _).bind _ fun _ _ h => h.elim
    rintro counts q hcounts
    obtain ⟨hsum, hq⟩ := p.served_called ▸ hcounts
    have hnodup : (p.served.map Tenant.id).Nodup := p.registry.nodup_list.sublist (p.served_sublist.map Tenant.id)
    have hcounts := countP_isOldOf hnodup cutoff p.records.rows.events
    rw [List.map_map] at hcounts
    exact .pure ⟨hsum.trans hcounts, Trans.trans (hcalled.without _) hq⟩
  · rintro _ _ ⟨hstruck, rfl⟩
    exact ⟨hstruck, hcalled⟩

theorem runRetention_outOfRange (hcutoff : policy.cutoff? now = none)
    (hup : p.outages.fails .tenantsList 0 = false) :
    (outcome (runRetention now policy) p).1 = if p.registry.list = [] then .ok 0 else .error .outOfRange := by
  rw [outcome_runRetention hup]
  cases p.registry.list with
  | nil => rfl
  | cons t tenants =>
    rw [List.mapM_cons, outcome_bind, outcome_purgeOrSkip_outOfRange hcutoff]
    rfl

/-! ## Running again -/

private theorem sum_map_ite (tenants : List Tenant) (ids : List TenantId) (f : Tenant → Nat) :
    (tenants.map fun t => if t.id ∈ ids then 0 else f t).sum = ((tenants.filter (·.id ∉ ids)).map f).sum := by
  induction tenants with
  | nil => rfl
  | cons t tenants ih =>
    rw [List.map_cons, List.sum_cons, ih, List.filter_cons]
    by_cases h : t.id ∈ ids
    · simp [h]
    · simp [h]

/-- Another run at the same time finds the old events of the tenants who were skipped before. -/
private theorem sum_oldCount_again {ids : List TenantId}
    (hrecords : r.records = (p.without (isOldOf ids cutoff)).records)
    (tenants : List Tenant) :
    (tenants.map fun t => r.oldCount t.id cutoff).sum =
      ((tenants.filter (·.id ∉ ids)).map fun t => p.oldCount t.id cutoff).sum := by
  rw [← sum_map_ite]
  congr 1
  apply List.map_congr_left
  intro t _
  rw [← oldCount_without, oldCount, hrecords, oldCount]

/-- The cutoff of a policy lies its days before the present. Then a purge for a tenant takes out just the events of
the tenant from before the cutoff and counts them, when it gets through to the rows, and changes nothing when it
does not. A run of the job does so for the registered tenants, in order and one after the other. Whichever purges
get through, it is their numbers that are added up and their events that are gone, and a purge that does not takes
its own tenant alone out of the run. Another run takes out what the first one has skipped, and nothing when it has
skipped nobody. -/
theorem retention_purges_old {now cutoff : Instant} {policy : RetentionPolicy}
    (hcutoff : cutoff.DaysBefore now policy.days) :
    (∀ (ctx : Context) (tenant : TenantId) (p : Pipeline), ctx.tenant = some tenant →
      Ends (purge now ctx policy) p
        (fun n q => p.purgeable 0 = true ∧ n = p.oldCount tenant cutoff ∧
          SameStores (p.without (isOldOf [tenant] cutoff)) q)
        fun _ q => p.purgeable 0 = false ∧ SameStores p q) ∧
    ∀ p : Pipeline,
      p.served.Sublist p.registry.list ∧
      (∀ (n : Nat) (t : Tenant), p.registry.list[n]? = some t → (t ∈ p.served ↔ p.purgeable n = true)) ∧
      Ends (runRetention now policy) p
        (fun n q => n = (p.served.map fun t => p.oldCount t.id cutoff).sum ∧
          SameStores (p.without (isOldOf (p.served.map Tenant.id) cutoff)) q ∧
          ∀ r : Pipeline, r.records = q.records → r.registry = q.registry →
            Ends (runRetention now policy) r
              (fun m _ => m = ((r.served.filter (·.id ∉ p.served.map Tenant.id)).map
                  fun t => p.oldCount t.id cutoff).sum ∧
                (p.served = p.registry.list → m = 0))
              fun _ s => r.outages.fails .tenantsList 0 = true ∧ SameStores r s)
        fun _ q => p.outages.fails .tenantsList 0 = true ∧ SameStores p q := by
  rw [← RetentionPolicy.cutoff?_eq_some] at hcutoff
  constructor
  · intro ctx tenant p hctx
    exact (ends_purge_old hctx hcutoff p).mono (fun _ _ h => ⟨h.1, h.2.1, h.2.2.1⟩) fun _ _ h => ⟨h.1, h.2.2.1⟩
  · intro p
    refine ⟨p.served_sublist, fun n t ht => mem_gettingThrough_iff p.registry.nodup_list.of_map ht, ?_⟩
    apply (ends_runRetention hcutoff p).mono _ fun _ _ h => h
    rintro n q ⟨hn, hq⟩
    refine ⟨hn, hq, fun r hrecords hregistry => ?_⟩
    apply (ends_runRetention hcutoff r).mono _ fun _ _ h => h
    rintro m s ⟨hm, -⟩
    have hagain := sum_oldCount_again (hrecords.trans hq.records) r.served
    refine ⟨hm.trans hagain, fun hall => ?_⟩
    have hnobody : r.served.filter (·.id ∉ p.served.map Tenant.id) = [] := by
      rw [hall, List.filter_eq_nil_iff]
      intro t ht
      have hlisted := r.served_sublist.subset ht
      rw [hregistry, hq.registry] at hlisted
      simpa using ⟨t, hlisted, rfl⟩
    rw [hm, hagain, hnobody]
    rfl

/-! ## A run that skips a tenant -/

/-- Three tenants with an event of the first instant each. The purges of the first and of the last one are going to
get through, and that in between is not. -/
def threeTenants : Pipeline :=
  let acme : Tenant := ⟨.acme, "Acme", "alk_1", .epoch, .epoch⟩
  let globex : Tenant := ⟨⟨"globex", by decide, by decide⟩, "Globex", "alk_2", .epoch, .epoch⟩
  let initech : Tenant := ⟨⟨"initech", by decide, by decide⟩, "Initech", "alk_3", .epoch, .epoch⟩
  let event (t : Tenant) : Event := { Event.signIn "e1" with tenant := t.id }
  { Pipeline.new 30000 fun _ => "" with
    records := ⟨⟨[event acme, event globex, event initech], by decide⟩, true⟩
    registry := ⟨.insert (.insert (.insert .empty acme.id acme) globex.id globex) initech.id initech,
      .create (.create (.create .empty (t := acme) rfl) (t := globex) rfl) (t := initech) rfl⟩
    outages := .insert .empty .storePurge ⟨[false, true], false⟩ }

private theorem list_threeTenants : threeTenants.registry.list = threeTenants.registry.tenants :=
  List.mergeSort_of_pairwise (by decide)

def february : Instant := ⟨31 * 86400, 250000000, by decide, by decide, by decide⟩

/-- The tenant in between keeps its event, and loses it when the job is run again. -/
theorem threeTenants_purged :
    (⟨86400, 250000000, by decide, by decide, by decide⟩ : Instant).DaysBefore february 30 ∧
      Ends (runRetention february ⟨30⟩) threeTenants
        (fun n q => n = 2 ∧ q.records.rows.events = (threeTenants.records.rows.events.drop 1).take 1 ∧
          Ends (runRetention february ⟨30⟩) { q with outages := .empty } (fun m _ => m = 1) fun _ _ => False)
        fun _ _ => False := by
  have hcutoff : (⟨86400, 250000000, by decide, by decide, by decide⟩ : Instant).DaysBefore february
      (RetentionPolicy.mk 30).days := by decide
  have hserved : threeTenants.served = threeTenants.registry.tenants.eraseIdx 1 := by
    rw [served, list_threeTenants]
    decide +kernel
  obtain ⟨-, -, hrun⟩ := (retention_purges_old hcutoff).2 threeTenants
  refine ⟨hcutoff, hrun.mono ?_ ?_⟩
  · rintro n q ⟨hn, hq, hagain⟩
    rw [hserved] at hn hq hagain
    refine ⟨hn.trans (by decide +kernel), ?_, ?_⟩
    · rw [hq.records]
      rfl
    · let later : Pipeline := { q with outages := .empty }
      have hall : later.served = threeTenants.registry.tenants := by
        have hlist : later.registry.list = threeTenants.registry.tenants := by
          rw [← list_threeTenants]
          exact congrArg Registry.list hq.registry
        have hwritable : q.records.writable = true := congrArg RecordStore.writable hq.records
        simp only [served, gettingThrough, hlist, purgeable, later, hwritable]
        rfl
      apply (hagain later rfl rfl).mono
      · rintro m s ⟨hm, -⟩
        rw [hall] at hm
        exact hm.trans (by decide +kernel)
      · rintro _ _ ⟨hstruck, -⟩
        cases hstruck
  · rintro _ _ ⟨hstruck, -⟩
    cases hstruck

/-- One tenant, whose next purge is not going to get through. -/
def loneTenant : Pipeline :=
  let acme : Tenant := ⟨.acme, "Acme", "alk_1", .epoch, .epoch⟩
  { Pipeline.new 30000 fun _ => "" with
    records := ⟨⟨[.signIn "e1"], by decide⟩, true⟩
    registry := ⟨.insert .empty acme.id acme, .create .empty (t := acme) rfl⟩
    outages := .insert .empty .storePurge (.calls 1) }

private theorem list_loneTenant : loneTenant.registry.list = loneTenant.registry.tenants :=
  List.mergeSort_of_pairwise (by decide)

/-- The pipeline when the job has been run. -/
def ranOnce : Pipeline :=
  (outcome (loneTenant.registry.tenants.mapM (purgeOrSkip february ⟨30⟩)) (loneTenant.called .tenantsList)).2

theorem second_run_purges_skipped :
    ¬∀ (now : Instant) (policy : RetentionPolicy) (p q r : Pipeline) (n m : Nat), policy.cutoff? now ≠ none →
      outcome (runRetention now policy) p = (.ok n, q) → outcome (runRetention now policy) q = (.ok m, r) →
        m = 0 := by
  intro h
  have hfirst : outcome (runRetention february ⟨30⟩) loneTenant = (.ok 0, ranOnce) := by
    rw [outcome_runRetention (by decide +kernel), list_loneTenant]
    rfl
  have hsecond : (outcome (runRetention february ⟨30⟩) ranOnce).1 = .ok 1 := by
    have hlist : ranOnce.registry.list = loneTenant.registry.tenants := list_loneTenant
    rw [outcome_runRetention (by decide +kernel), hlist]
    rfl
  exact absurd (h february ⟨30⟩ loneTenant ranOnce _ 0 1 (by decide +kernel) hfirst (Prod.ext hsecond rfl)) (by decide)

end Pipeline

end AuditTrail
