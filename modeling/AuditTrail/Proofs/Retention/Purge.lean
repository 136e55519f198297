import AuditTrail.Proofs.Pipeline.Changes
import AuditTrail.Proofs.Retention.Cutoff
/-!
# One purge

A purge takes the old events of its tenant out of the record store and counts them, or fails and takes nothing out.
-/

namespace AuditTrail

/-- An event of one of some tenants from before an instant. -/
def Event.isOldOf (tenants : List TenantId) (cutoff : Instant) (e : Event) : Bool :=
  decide (e.tenant ∈ tenants ∧ e.timestamp < cutoff)

theorem Event.isOldOf_iff {tenants : List TenantId} {cutoff : Instant} {e : Event} :
    e.isOldOf tenants cutoff = true ↔ e.tenant ∈ tenants ∧ e.timestamp < cutoff := decide_eq_true_iff

private theorem RecordStore.isStale_eq (tenant : TenantId) (cutoff : Instant) :
    isStale tenant cutoff = Event.isOldOf [tenant] cutoff := by
  funext e
  simp [isStale, Event.isOldOf]

namespace Pipeline

variable {p : Pipeline} {now cutoff : Instant} {policy : RetentionPolicy} {ctx : Context} {tenant : TenantId}

/-- A pipeline without the events that pass a test. -/
def without (p : Pipeline) (old : Event → Bool) : Pipeline :=
  { p with records := { p.records with rows := p.records.rows.filter fun e => !old e } }

/-- The number of events of a tenant from before an instant. -/
def oldCount (p : Pipeline) (tenant : TenantId) (cutoff : Instant) : Nat :=
  p.records.rows.events.countP (Event.isOldOf [tenant] cutoff)

/-- The purge of that number, from now on, gets through to the rows and may change them. -/
def purgeable (p : Pipeline) (n : Nat) : Bool := !p.outages.fails .storePurge n && p.records.writable

/-- The pipeline after a call through a seam, which may have used up an outage. -/
def called (p : Pipeline) (s : Seam) : Pipeline := { p with outages := (p.outages.strike s).2 }

theorem sameStores_called (p : Pipeline) (s : Seam) : SameStores p (p.called s) := Blind.strike p s

theorem purgeable_called (p : Pipeline) (s : Seam) (n : Nat) :
    (p.called s).purgeable n = p.purgeable (if s = .storePurge then n + 1 else n) := by
  rw [purgeable, called, Table.fails_strike, purgeable]

theorem outcome_pass_called (s : Seam) (p : Pipeline) :
    outcome (pass s) p =
      (if p.outages.fails s 0 then .error s.failure else .ok (), p.called s) := by
  have hstruck : outcome (struck s) p = (.ok (p.outages.fails s 0), p.called s) := rfl
  rw [pass, outcome_bind, hstruck, proceed_ok]
  split <;> simp_all

theorem outcome_purge (hctx : ctx.tenant = some tenant) (hcutoff : policy.cutoff? now = some cutoff)
    (h : p.purgeable 0 = true) :
    outcome (purge now ctx policy) p = (.ok (p.oldCount tenant cutoff),
      { (p.called .storePurge).without (Event.isOldOf [tenant] cutoff) with
        metrics := p.metrics.add .retentionPurged (p.oldCount tenant cutoff) }) := by
  obtain ⟨hup, hwritable⟩ : p.outages.fails .storePurge 0 = false ∧ p.records.writable = true := by
    simpa [purgeable] using h
  have hpurge : (p.called .storePurge).records.purge ctx cutoff = .ok (p.oldCount tenant cutoff,
      ((p.called .storePurge).without (Event.isOldOf [tenant] cutoff)).records) := by
    have hchecked : (p.called .storePurge).records.checkWritable = .ok () := if_pos hwritable
    rw [RecordStore.purge, Context.requireTenant_eq_ok.mpr hctx, Failure.ok_bind, hchecked, RecordStore.isStale_eq]
    rfl
  have hpass : outcome (pass .storePurge) p = (.ok (), p.called .storePurge) := by
    simp [outcome_pass_called, hup]
  simp only [purge, purgeRecords, Context.requireTenant_eq_ok.mpr hctx, hcutoff, hpass, hpurge, outcome_bind,
    outcome_lift, outcome_get, outcome_set, outcome_count, outcome_pure, proceed_ok]
  rfl

private theorem outcome_purge_failed (hctx : ctx.tenant = some tenant) (hcutoff : policy.cutoff? now = some cutoff)
    (h : p.purgeable 0 = false) :
    ∃ text, outcome (purge now ctx policy) p = (.error (.storeWrite text), p.called .storePurge) := by
  cases hup : p.outages.fails .storePurge 0 with
  | false =>
    have hreadOnly : p.records.writable = false := by simpa [purgeable, hup] using h
    have hchecked : (p.called .storePurge).records.checkWritable =
        .error (.storeWrite "record store unavailable") := if_neg (Bool.eq_false_iff.mp hreadOnly)
    simp [purge, purgeRecords, outcome_pass_called, hup, Context.requireTenant_eq_ok.mpr hctx, hcutoff,
      RecordStore.purge, hchecked]
  | true =>
    simp [purge, purgeRecords, outcome_pass_called, hup, Context.requireTenant_eq_ok.mpr hctx, hcutoff, Seam.failure]

theorem outcome_purge_outOfRange (hctx : ctx.tenant = some tenant) (hcutoff : policy.cutoff? now = none)
    (p : Pipeline) : outcome (purge now ctx policy) p = (.error .outOfRange, p) := by
  simp [purge, Context.requireTenant_eq_ok.mpr hctx, hcutoff]

/-- A purge takes out just the old events of its tenant when it gets through to them; when it does not, nothing
has changed. -/
theorem ends_purge_old (hctx : ctx.tenant = some tenant) (hcutoff : policy.cutoff? now = some cutoff)
    (p : Pipeline) :
    Ends (purge now ctx policy) p
      (fun n q => p.purgeable 0 = true ∧ n = p.oldCount tenant cutoff ∧
        SameStores (p.without (Event.isOldOf [tenant] cutoff)) q ∧ ∀ n, q.purgeable n = p.purgeable (n + 1))
      fun f q => p.purgeable 0 = false ∧ (∃ text, f = .storeWrite text) ∧ SameStores p q ∧
        ∀ n, q.purgeable n = p.purgeable (n + 1) := by
  have hnext := purgeable_called p .storePurge
  cases h : p.purgeable 0 with
  | true =>
    apply ends_of_ok (outcome_purge hctx hcutoff h)
    exact ⟨rfl, rfl, ⟨rfl, rfl, rfl, rfl, rfl, (sameStores_called p _).outages⟩, hnext⟩
  | false =>
    obtain ⟨text, hrun⟩ := outcome_purge_failed hctx hcutoff h
    exact ends_of_error hrun ⟨rfl, ⟨text, rfl⟩, sameStores_called p _, hnext⟩

end Pipeline

end AuditTrail
