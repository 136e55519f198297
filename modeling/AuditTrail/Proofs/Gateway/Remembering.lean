import AuditTrail.Proofs.Gateway.Authorization
/-!
# What is remembered of keys

A gateway remembers the tenants of keys for some time and may forget any of them at any moment. Whatever it
has served before, it finds a key to be of the tenant who holds it now, with what is registered of that tenant
now, and of nobody if no tenant holds it.
-/

namespace AuditTrail

namespace Gateway

open Http Pipeline

/-! ## Gateways in service -/

/-- The gateways in service: one that is new before backends that are up, and what becomes of it by serving
requests, by forgetting any keys and buckets, and by whatever leaves the registry behind it as it is. -/
inductive InService (auth : AuthSettings) (limit : RateLimit) : Gateway → Prop
  | new (p : Pipeline) (hup : p.outages = .empty) : InService auth limit (.new p auth limit)
  | serve {g : Gateway} (before : InService auth limit g) (m : Moment) (r : Request) :
      InService auth limit (served m r g).2
  | evict {g : Gateway} (before : InService auth limit g) (keep : String → Tenant × Nat → Bool) :
      InService auth limit { g with known := g.known.filter keep }
  | tidy {g : Gateway} (before : InService auth limit g) (maxAge elapsed : Nat) :
      InService auth limit { g with limiter := g.limiter.cleanup maxAge elapsed }
  | behind {g : Gateway} (before : InService auth limit g) (p : Pipeline)
      (hregistry : p.registry = g.pipeline.registry) (hup : p.outages = .empty) :
      InService auth limit { g with pipeline := p }

theorem Faithful.evict {g : Gateway} (hg : g.Faithful) (keep : String → Tenant × Nat → Bool) :
    Faithful { g with known := g.known.filter keep } := by
  intro key t hknows
  cases hknows with
  | inl hremembered =>
    obtain ⟨found, hfound⟩ := hremembered
    exact hg key t (.inl ⟨found, Table.get?_of_filter hfound⟩)
  | inr hregistered => exact hregistered

private theorem up_served {g : Gateway} (hup : g.pipeline.outages = .empty) (m : Moment) (r : Request) :
    (served m r g).2.pipeline.outages = .empty := by
  rcases served_cases m r g with hkept | ⟨-, a, -, -, -, hchanged⟩
  · exact hkept.stores.outages hup
  · cases hchanged with
    | own hkey hknows hchange => exact hchange.outages hup
    | events hadmin hchange => exact hchange.outages hup
    | tenants hadmin hchange => exact hchange.outages hup

namespace InService

variable {auth : AuthSettings} {limit : RateLimit} {g : Gateway}

theorem up (hg : InService auth limit g) : g.pipeline.outages = .empty := by
  induction hg with
  | new p hup => exact hup
  | serve before m r ih => exact up_served ih m r
  | evict before keep ih => exact ih
  | tidy before maxAge elapsed ih => exact ih
  | behind before p hregistry hup ih => exact hup

theorem faithful (hg : InService auth limit g) : g.Faithful := by
  induction hg with
  | new p hup => exact .new p auth limit
  | serve before m r ih => exact (sameRules_served m r _).faithful ih
  | evict before keep ih => exact ih.evict keep
  | tidy before maxAge elapsed ih => exact ih
  | behind before p hregistry hup ih => exact ih.of_registry hregistry

end InService

/-! ## Callers -/

/-- Whom a gateway finds a key to be of. -/
def owner (g : Gateway) (key : ApiKey) (elapsed : Nat) : Except Failure Tenant :=
  ((ownerOf key elapsed).run.run g : Except Failure Tenant × Gateway).1

/-- What a gateway makes of whoever sends a request. -/
def caller (g : Gateway) (m : Moment) (r : Request) : Except Refusal Context :=
  ((authenticate m r).run.run g : Except Refusal Context × Gateway).1

/-- What the registry and the limits say of whoever presents a key. -/
def verdict (g : Gateway) (key : ApiKey) (m : Moment) (r : Request) : Except Refusal Context :=
  match g.pipeline.registry.ofKey? key.text with
  | none => .error (.failure unknownKey)
  | some t =>
    match (g.limiter.check t.id.name m.elapsed).1 with
    | .ok _ => .ok (.ofTenant t.id (requestId m r))
    | .error seconds => .error (.busy seconds)

private theorem owner_eq {g : Gateway} (hg : g.Faithful) (hup : g.pipeline.outages = .empty) (key : ApiKey)
    (elapsed : Nat) :
    g.owner key elapsed = (g.pipeline.registry.ofKey? key.text).elim (.error unknownKey) .ok := by
  apply Ends.result
  apply (ends_ownerOf_registered hg hup key elapsed).mono
  · intro t _ h
    rw [h.1, Option.elim_some]
  · intro f _ h
    rw [h.1, h.2, Option.elim_none]

private theorem ends_takeToken (tenant : TenantId) (elapsed : Nat) (g : Gateway) :
    Ends (takeToken tenant elapsed) g (fun _ _ => (g.limiter.check tenant.name elapsed).1 = .ok ())
      fun f _ => ∃ seconds, (g.limiter.check tenant.name elapsed).1 = .error seconds ∧ f = .busy seconds := by
  unfold takeToken
  refine (Ends.got g).bind ?_ fun _ _ h => h.elim
  rintro _ _ ⟨rfl, rfl⟩
  rcases g.limiter.check tenant.name elapsed with ⟨seconds | _, limiter⟩
  · exact ⟨seconds, rfl, rfl⟩
  · exact rfl

theorem caller_eq_verdict {g : Gateway} (hg : g.Faithful) (hup : g.pipeline.outages = .empty) (m : Moment)
    {r : Request} {key : ApiKey} (hr : Presents r key.text) : g.caller m r = g.verdict key m r := by
  apply Ends.result
  unfold authenticate
  rw [extract_of_presents hr]
  refine Ends.bind (Ends.pure ⟨rfl, rfl⟩ : Ends _ g (fun k h => key = k ∧ g = h) fun _ _ => False) ?_
    fun _ _ h => h.elim
  rintro _ _ ⟨rfl, rfl⟩
  have howner : Ends ((ownerOf key m.elapsed).adapt Refusal.failure) g
      (fun t h => g.pipeline.registry.ofKey? key.text = some t ∧ ∃ known, h = { g with known })
      fun refusal _ => g.verdict key m r = .error refusal := by
    apply Ends.adapt
    apply (ends_ownerOf_registered hg hup key m.elapsed).mono
    · intro t h ht
      exact ht
    · intro f h hnone
      rw [verdict, hnone.1, hnone.2]
  refine howner.bind ?_ fun _ _ h => h
  rintro t _ ⟨ht, known, rfl⟩
  refine (ends_takeToken t.id m.elapsed { g with known }).bind ?_ ?_
  · intro _ h htoken
    exact .pure (by simp only [verdict, ht, htoken])
  · rintro _ h ⟨seconds, htoken, rfl⟩
    simp only [verdict, ht, htoken]

namespace InService

variable {auth : AuthSettings} {limit : RateLimit} {g : Gateway}

/-- Whatever a gateway has served, remembered and forgotten, it finds a key to be of just the tenant who is
registered with it, as that tenant is registered now. So whoever presents the key of a tenant is let in as that
tenant, unless the tenant is limited, and whoever presents a key that no tenant has is refused. -/
theorem caller_registered (hg : InService auth limit g) (m : Moment) {r : Request} {key : ApiKey}
    (hr : Presents r key.text) :
    (∀ t, g.owner key m.elapsed = .ok t ↔ t ∈ g.pipeline.registry.tenants ∧ t.apiKey = key.text) ∧
      ((∀ t ∈ g.pipeline.registry.tenants, t.apiKey ≠ key.text) →
        g.owner key m.elapsed = .error unknownKey ∧ g.caller m r = .error (.failure unknownKey)) ∧
      ∀ t ∈ g.pipeline.registry.tenants, t.apiKey = key.text →
        g.caller m r =
          match (g.limiter.check t.id.name m.elapsed).1 with
          | .ok _ => .ok (.ofTenant t.id (requestId m r))
          | .error seconds => .error (.busy seconds) := by
  rw [owner_eq hg.faithful hg.up, caller_eq_verdict hg.faithful hg.up m hr]
  refine ⟨?_, ?_, ?_⟩
  · intro t
    rw [← Registry.ofKey?_eq_some]
    cases g.pipeline.registry.ofKey? key.text <;> simp
  · intro hnobody
    have hnone : g.pipeline.registry.ofKey? key.text = none := by
      rw [Option.eq_none_iff_forall_ne_some]
      intro t hfound
      obtain ⟨ht, hkey⟩ := Registry.ofKey?_eq_some.mp hfound
      exact hnobody t ht hkey
    exact ⟨by rw [hnone, Option.elim_none], by rw [verdict, hnone]⟩
  · intro t ht hkey
    simp only [verdict, Registry.ofKey?_eq_some.mpr ⟨ht, hkey⟩]

end InService

/-- Somebody asks for the events of the tenant. -/
def eventsAsked : Request := ⟨.get, "/api/v1/logs", [("X-API-Key", Tenant.acme.apiKey)], ""⟩

/-- A tenant who was let in, and is remembered, is refused with the same key once it was removed. -/
theorem removed_tenant_refused :
    let used := (served .first eventsAsked (ofAcme .standard)).2
    let removed := (served .first removal used).2
    used.known.keys = [Tenant.acme.apiKey] ∧
      used.caller .first eventsAsked = .ok (.ofTenant .acme "f0") ∧
      removed.caller .first eventsAsked = .error (.failure unknownKey) := by
  intro used removed
  let key : ApiKey := ⟨Tenant.acme.apiKey, by decide⟩
  have hpresents : Presents eventsAsked key.text := presents_acme rfl
  have hused : InService { adminKey := some "sesame" } .standard used := (InService.new _ rfl).serve _ _
  have hremoved : InService { adminKey := some "sesame" } .standard removed := hused.serve _ _
  have hthere : Tenant.acme ∈ used.pipeline.registry.tenants := by decide +kernel
  have hgone : removed.pipeline.registry.tenants = [] := by decide +kernel
  have htoken : (used.limiter.check Tenant.acme.id.name Moment.first.elapsed).1 = .ok () := by decide +kernel
  have hrequest : requestId .first eventsAsked = "f0" := by decide +kernel
  refine ⟨by decide +kernel, ?_, ?_⟩
  · rw [(hused.caller_registered .first hpresents).2.2 .acme hthere rfl, htoken, hrequest]
    rfl
  · apply ((hremoved.caller_registered .first hpresents).2.1 _).2
    rw [hgone]
    simp

end Gateway

end AuditTrail
