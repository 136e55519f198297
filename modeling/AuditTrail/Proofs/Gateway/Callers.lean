import AuditTrail.Gateway.Basic
import AuditTrail.Proofs.Pipeline.Endings
/-!
# Who is asking

A tenant is told by the key that it presents, which the gateway looks up in what it remembers and then in the
registry; administrators are told by theirs. Finding out leaves the stores as they are, and the gateway
remembers of the registry only what the registry says.
-/

namespace AuditTrail

namespace Gateway

open Pipeline

/-- The tenant that a gateway takes a key to be of: the one that it remembers, or that is registered. -/
def Knows (g : Gateway) (key : String) (t : Tenant) : Prop :=
  (∃ found, g.known.get? key = some (t, found)) ∨ g.pipeline.registry.ofKey? key = some t

/-- What is remembered of keys is what the registry says. -/
def Faithful (g : Gateway) : Prop :=
  ∀ key t, g.Knows key t → g.pipeline.registry.ofKey? key = some t

/-- The settings of two gateways are the same, and the later one is faithful if the earlier one was. -/
structure SameRules (g h : Gateway) : Prop where
  memory : h.memory = g.memory
  limit : h.limiter.limit = g.limiter.limit
  adminKey : h.adminKey = g.adminKey
  faithful : g.Faithful → h.Faithful

/-- What a gateway stands before is as it was. Buckets, what is remembered of keys, counters and health may
differ. -/
structure Kept (g h : Gateway) : Prop extends SameRules g h where
  stores : SameStores g.pipeline h.pipeline

instance : IsPreorder Gateway Kept where
  refl _ := ⟨⟨rfl, rfl, rfl, id⟩, refl _⟩
  trans _ _ _ h k :=
    ⟨⟨k.memory.trans h.memory, k.limit.trans h.limit, k.adminKey.trans h.adminKey,
      fun hg => k.faithful (h.faithful hg)⟩, Trans.trans h.stores k.stores⟩

variable {g h : Gateway} {α : Type}

theorem Faithful.of_registry {p : Pipeline} (hg : g.Faithful) (hp : p.registry = g.pipeline.registry) :
    Faithful { g with pipeline := p } := by
  intro key t hknows
  simp only [Knows, hp] at hknows ⊢
  exact hg key t hknows

private theorem Kept.of_stores {p : Pipeline} (hp : SameStores g.pipeline p) : Kept g { g with pipeline := p } :=
  ⟨⟨rfl, rfl, rfl, fun hg => hg.of_registry hp.registry⟩, hp⟩

theorem Kept.eq (hk : Kept g h) : h =
    { g with
      pipeline := { g.pipeline with
        metrics := h.pipeline.metrics, health := h.pipeline.health, outages := h.pipeline.outages }
      known := h.known
      limiter := { g.limiter with buckets := h.limiter.buckets } } := by
  obtain ⟨⟨hmemory, hlimit, hadmin, -⟩, hrecords, hregistry, hindex, hqueue, hclock, -⟩ := hk
  obtain ⟨⟨records, registry, index, queue, metrics, health, outages, clock⟩, known, memory,
    ⟨limit, buckets⟩, adminKey⟩ := h
  dsimp only at *
  rw [hmemory, hlimit, hadmin, hrecords, hregistry, hindex, hqueue, hclock]

/-! ## The pipeline behind the gateway -/

theorem ends_withPipeline {a : Action α} {done : α → Pipeline → Prop} {failed : Failure → Pipeline → Prop}
    (ha : Ends a g.pipeline done failed) :
    Ends (withPipeline a) g (fun x h => ∃ p, h = { g with pipeline := p } ∧ done x p)
      fun f h => ∃ p, h = { g with pipeline := p } ∧ failed f p := by
  have hrun : ((withPipeline a).run.run g : Except Failure α × Gateway) =
      ((a.run.run g.pipeline : Except Failure α × Pipeline).1,
        { g with pipeline := (a.run.run g.pipeline : Except Failure α × Pipeline).2 }) := rfl
  unfold Ends at ha
  rw [Ends, hrun]
  generalize (a.run.run g.pipeline : Except Failure α × Pipeline) = result at ha ⊢
  rcases result with ⟨f | x, p⟩
  · exact ⟨p, rfl, ha⟩
  · exact ⟨p, rfl, ha⟩

theorem ends_performed {a : Action α} {done : α → Pipeline → Prop} {failed : Pipeline → Prop}
    (ha : Ends a g.pipeline done fun _ p => failed p) :
    Ends (perform a) g (fun x h => ∃ p, h = { g with pipeline := p } ∧ done x p)
      fun _ h => ∃ p, h = { g with pipeline := p } ∧ failed p := (ends_withPipeline ha).adapt

theorem ends_perform {a : Action α} {done : α → Pipeline → Prop}
    (ha : Ends a g.pipeline done fun _ p => SameStores g.pipeline p) :
    Ends (perform a) g (fun x h => ∃ p, h = { g with pipeline := p } ∧ done x p) fun _ h => Kept g h := by
  refine (ends_performed ha).mono (fun _ _ h => h) ?_
  rintro _ _ ⟨p, rfl, hp⟩
  exact .of_stores hp

theorem keeps_perform {a : Action α} (ha : Reads a) : Leaves Kept (perform a) := by
  intro g
  refine (ends_perform (ha SameStores g.pipeline)).mono ?_ fun _ _ h => h
  rintro _ _ ⟨p, rfl, hp⟩
  exact .of_stores hp

theorem keeps_accept {S : Gateway → Gateway → Prop} [IsPreorder Gateway S] (result : Except Failure α) :
    Leaves S (accept result) := by
  cases result with
  | ok x => exact .pure x
  | error f => exact .throw _

/-! ## Administrators -/

/-- A request carries the key of the administrators, blanks at its ends aside; there is such a key, and it
is not empty. -/
def CarriesAdminKey (adminKey : Option String) (r : Http.Request) : Prop :=
  ∃ value, r.header "x-admin-key" = some value ∧ Text.trim value ≠ "" ∧ adminKey = some (Text.trim value)

theorem ends_authorize (r : Http.Request) (g : Gateway) :
    Ends (authorize r) g (fun _ h => g = h ∧ CarriesAdminKey g.adminKey r) fun _ h => Kept g h := by
  unfold authorize
  split
  · exact .throw (refl g)
  · rename_i presented hpresented
    obtain ⟨hmap, hsome⟩ := Option.filter_eq_some_iff.mp hpresented
    obtain ⟨value, hvalue, rfl⟩ := Option.map_eq_some_iff.mp hmap
    refine (Ends.got g).bind ?_ fun _ _ h => h.elim
    rintro _ _ ⟨rfl, rfl⟩
    split
    · exact .throw (refl g)
    · rename_i hkey
      exact .pure ⟨rfl, value, hvalue, by simpa using hsome, by simpa using hkey⟩

/-! ## Tenants -/

private theorem known_of_remembered {key : String} {elapsed : Nat} {t : Tenant}
    (h : g.remembered? key elapsed = some t) : ∃ found, g.known.get? key = some (t, found) := by
  obtain ⟨⟨u, found⟩, hknown, hu⟩ := Option.bind_eq_some_iff.mp h
  change (if elapsed < found + g.memory then some u else none) = some t at hu
  split at hu
  · cases hu
    exact ⟨found, hknown⟩
  · cases hu

private theorem Kept.remember {p : Pipeline} (hp : SameStores g.pipeline p) {key : String} {t : Tenant}
    (ht : g.pipeline.registry.ofKey? key = some t) (found : Nat) :
    Kept g { g with pipeline := p, known := g.known.insert key (t, found) } := by
  refine ⟨⟨rfl, rfl, rfl, fun hg k u hknows => ?_⟩, hp⟩
  simp only [Knows, hp.registry, Table.get?_insert] at hknows ⊢
  rcases hknows with ⟨since, hsince⟩ | hregistered
  · split at hsince
    · rename_i heq
      cases hsince
      exact heq ▸ ht
    · exact hg k u (.inl ⟨since, hsince⟩)
  · exact hregistered

/-- The tenant of a key is one that the gateway knows it to be of, and is remembered from then on. -/
theorem ends_ownerOf (key : ApiKey) (elapsed : Nat) (g : Gateway) :
    Ends (ownerOf key elapsed) g (fun t h => Kept g h ∧ g.Knows key.text t) fun _ h => Kept g h := by
  unfold ownerOf
  refine (Ends.got g).bind ?_ fun _ _ h => h.elim
  rintro _ _ ⟨rfl, rfl⟩
  split
  · rename_i t hremembered
    exact .pure ⟨refl g, .inl (known_of_remembered hremembered)⟩
  · have hfind : Ends (findTenant key.text) g.pipeline
        (fun found p => g.pipeline.registry.ofKey? key.text = found ∧ SameStores g.pipeline p)
        fun _ p => SameStores g.pipeline p := by
      refine (reads_pass .tenantsResolve SameStores _).bind (fun _ p hp => ?_) fun _ _ hp => hp
      refine (Ends.got p).bind ?_ fun _ _ h => h.elim
      rintro _ _ ⟨rfl, rfl⟩
      exact .pure ⟨by rw [hp.registry], hp⟩
    refine (ends_withPipeline hfind).bind ?_ ?_
    · rintro found _ ⟨p, rfl, hfound, hp⟩
      cases found with
      | none => exact .throw (.of_stores hp)
      | some t =>
        refine Ends.bind (Ends.modify ?_) (fun _ _ h => .pure h) fun _ _ h => h
        exact ⟨.remember hp hfound elapsed, .inr hfound⟩
    · rintro f _ ⟨p, rfl, hp⟩
      exact .of_stores hp

/-- Why a key is refused that nobody holds. -/
def unknownKey : Failure := .unauthenticated .invalid "API key does not belong to any tenant"

/-- A faithful gateway whose registry can be asked finds a key to be of the tenant who holds it, whether it
remembers that or looks it up, and refuses a key that nobody holds. -/
theorem ends_ownerOf_registered (hg : g.Faithful) (hup : g.pipeline.outages = .empty) (key : ApiKey)
    (elapsed : Nat) :
    Ends (ownerOf key elapsed) g
      (fun t h => g.pipeline.registry.ofKey? key.text = some t ∧ ∃ known, h = { g with known })
      fun f _ => g.pipeline.registry.ofKey? key.text = none ∧ f = unknownKey := by
  unfold ownerOf
  refine (Ends.got g).bind ?_ fun _ _ h => h.elim
  rintro _ _ ⟨rfl, rfl⟩
  split
  · rename_i t hremembered
    exact .pure ⟨hg key.text t (.inl (known_of_remembered hremembered)), g.known, rfl⟩
  · have hrun : outcome (findTenant key.text) g.pipeline =
        (.ok (g.pipeline.registry.ofKey? key.text), g.pipeline) := by
      simp [findTenant, outcome_pass hup]
    have hfind : Ends (findTenant key.text) g.pipeline
        (fun found p => g.pipeline.registry.ofKey? key.text = found ∧ p = g.pipeline) fun _ _ => False :=
      ends_of_ok hrun ⟨rfl, rfl⟩
    refine (ends_withPipeline hfind).bind ?_ fun _ _ ⟨_, _, h⟩ => h.elim
    rintro found _ ⟨_, rfl, hfound, rfl⟩
    cases found with
    | none => exact .throw ⟨hfound, rfl⟩
    | some t => exact Ends.bind (Ends.modify ⟨hfound, _, rfl⟩) (fun _ _ h => .pure h) fun _ _ h => h

private theorem keeps_takeToken (tenant : TenantId) (elapsed : Nat) : Leaves Kept (takeToken tenant elapsed) := by
  intro g
  unfold takeToken
  refine (Ends.got g).bind ?_ fun _ _ h => h.elim
  rintro _ _ ⟨rfl, rfl⟩
  have hlimit := g.limiter.limit_check tenant.name elapsed
  generalize g.limiter.check tenant.name elapsed = result at hlimit ⊢
  obtain ⟨verdict, limiter⟩ := result
  have hkept : Kept g { g with limiter } := ⟨⟨rfl, hlimit, rfl, fun hg => hg⟩, refl _⟩
  refine Ends.bind (Ends.set hkept : Ends _ g (fun _ h => Kept g h) fun _ h => Kept g h) ?_ fun _ _ h => h
  intro _ h hh
  cases verdict with
  | ok _ => exact .pure hh
  | error seconds =>
    refine (keeps_perform (reads_count (by decide) _) h).bind (fun _ _ hk => .throw ?_) fun _ _ hk => ?_
    · exact Trans.trans hh hk
    · exact Trans.trans hh hk

/-- Whoever is let in as a tenant has presented a key that the gateway knows to be of that tenant. -/
theorem ends_authenticate (m : Moment) (r : Http.Request) (g : Gateway) :
    Ends (authenticate m r) g
      (fun ctx h => Kept g h ∧ ∃ key t,
        ApiKey.extract (r.header "authorization") (r.header "x-api-key") = .ok key ∧
          g.Knows key.text t ∧ ctx = .ofTenant t.id (requestId m r))
      fun _ h => Kept g h := by
  have hextract : Ends (accept (ApiKey.extract (r.header "authorization") (r.header "x-api-key"))) g
      (fun key h => ApiKey.extract (r.header "authorization") (r.header "x-api-key") = .ok key ∧ g = h)
      fun _ h => Kept g h := by
    cases ApiKey.extract (r.header "authorization") (r.header "x-api-key") with
    | ok key => exact .pure ⟨rfl, rfl⟩
    | error f => exact .throw (refl g)
  refine hextract.bind ?_ fun _ _ h => h
  rintro key _ ⟨hkey, rfl⟩
  refine Ends.bind (Ends.adapt (ends_ownerOf key m.elapsed g) : Ends _ g _ fun _ h => Kept g h) ?_
    fun _ _ h => h
  rintro t h ⟨hh, hknows⟩
  refine (keeps_takeToken t.id m.elapsed h).bind (fun _ k hk => .pure ?_) fun _ _ hk => Trans.trans hh hk
  exact ⟨Trans.trans hh hk, key, t, hkey, hknows, rfl⟩

end Gateway

end AuditTrail
