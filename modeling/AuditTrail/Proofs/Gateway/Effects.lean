import AuditTrail.Gateway.Serve
import AuditTrail.Proofs.Gateway.Callers
import AuditTrail.Proofs.Pipeline.Changes
/-!
# What requests do

A request leaves what stands behind the gateway as it is, or it is answered with success and has done one of
three things: changed the events of the tenant who presented its key, or, with the key of the administrators,
the events of some tenant or the tenants. All that is said about requests follows from these cases:
`Gateway.served_cases`.
-/

namespace AuditTrail

namespace Pipeline

variable {p q r : Pipeline}

private theorem SameStores.changesEvents {tenant : TenantId} (h : SameStores p q) (k : ChangesEvents tenant q r) :
    ChangesEvents tenant p r where
  rows other hother := by rw [k.rows other hother, h.records]
  registry := k.registry.trans h.registry
  index := k.index.trans h.index
  queue := by rw [← h.queue]; exact k.queue
  clock := k.clock.trans h.clock
  outages hp := k.outages (h.outages hp)

private theorem SameStores.managesTenants (h : SameStores p q) (k : ManagesTenants q r) : ManagesTenants p r :=
  ⟨k.records.trans h.records, k.queue.trans h.queue, k.clock.trans h.clock,
    fun hp => k.outages (h.outages hp)⟩

end Pipeline

namespace Gateway

open Http Pipeline

variable {g h : Gateway} {m : Moment} {r : Request}

/-! ## Reading requests -/

section

variable {S : Gateway → Gateway → Prop} [IsPreorder Gateway S]

theorem keeps_readSegment (segment : String) : Leaves S (readSegment segment) := by
  unfold readSegment
  split
  · exact .pure _
  · exact .throw _

theorem keeps_readContent {α : Type} (read : Json.Reader α) (r : Request) : Leaves S (readContent read r) := by
  have hcheck : Leaves S (checkContent r) := by
    unfold checkContent
    split
    · exact .throw _
    · exact .pure _
  refine hcheck.bind fun _ => ?_
  split
  · exact .pure _
  · exact .throw _

private theorem keeps_readParameters (names : List String) (r : Request) : Leaves S (readParameters names r) := by
  unfold readParameters
  split
  · exact .pure _
  · exact .throw _

private theorem keeps_readFilter (r : Request) : Leaves S (readFilter r) :=
  (keeps_readParameters _ r).bind fun _ => keeps_accept _

private theorem keeps_readExport (r : Request) : Leaves S (readExport r) := by
  refine (keeps_readParameters _ r).bind fun value => ?_
  have hfilter (format : ExportFormat) : Leaves S (do
      let f ← accept (FilterParameters.ofLookup value).toFilter
      return (format, f)) := (keeps_accept _).bind fun _ => .pure _
  dsimp only
  split
  · exact (keeps_accept _).bind hfilter
  · exact Leaves.bind (.pure _) hfilter

theorem keeps_readPolicy (r : Request) : Leaves S (readPolicy r) := by
  refine (keeps_readParameters _ r).bind fun value => ?_
  split
  · exact .pure _
  · split
    · exact keeps_accept _
    · exact .throw _

theorem keeps_readTenantId (segment : String) : Leaves S (readTenantId segment) :=
  (keeps_readSegment segment).bind fun _ => keeps_accept _

theorem keeps_authorize (r : Request) : Leaves S (authorize r) := by
  unfold authorize
  split
  · exact .throw _
  · refine Leaves.get.bind fun g => ?_
    split
    · exact .throw _
    · exact .pure _

end

/-! ## Requests that only read -/

/-- A relation of gateways that does not see what reading does to the pipeline, and who is remembered. -/
class Blind (S : Gateway → Gateway → Prop) : Prop extends IsPreorder Gateway S where
  perform : ∀ {α : Type} {a : Action α}, Reads a → Leaves S (Gateway.perform a)
  authenticate : ∀ m r, Leaves S (Gateway.authenticate m r)

instance : Blind Kept where
  perform := keeps_perform
  authenticate m r g := (ends_authenticate m r g).mono (fun _ _ h => h.1) fun _ _ h => h

section

variable {S : Gateway → Gateway → Prop} [Blind S]

theorem keeps_getEvents (m : Moment) (r : Request) : Leaves S (getEvents m r) :=
  (Blind.authenticate m r).bind fun _ => (keeps_readFilter r).bind fun _ =>
    (Blind.perform (reads_listEvents _ _)).bind fun _ => .pure _

theorem keeps_getOneEvent (m : Moment) (r : Request) (id : String) : Leaves S (getOneEvent m r id) :=
  (Blind.authenticate m r).bind fun _ => (keeps_readSegment id).bind fun _ =>
    (Blind.perform (reads_getEvent _ _)).bind fun _ => .pure _

theorem keeps_getStats (m : Moment) (r : Request) : Leaves S (getStats m r) :=
  (Blind.authenticate m r).bind fun _ => (keeps_readFilter r).bind fun _ =>
    (Blind.perform (reads_stats _ _)).bind fun _ => .pure _

theorem keeps_getExport (m : Moment) (r : Request) : Leaves S (getExport m r) :=
  (Blind.authenticate m r).bind fun _ => (keeps_readExport r).bind fun _ =>
    (Blind.perform (reads_exportEvents _ _ _)).bind fun _ => .pure _

theorem keeps_getTenants (r : Request) : Leaves S (getTenants r) :=
  (keeps_authorize r).bind fun _ => (Blind.perform reads_listTenants).bind fun _ => .pure _

theorem keeps_getOneTenant (r : Request) (id : String) : Leaves S (getOneTenant r id) :=
  (keeps_authorize r).bind fun _ => (keeps_readTenantId id).bind fun _ =>
    (Blind.perform (reads_requireTenant _)).bind fun _ => .pure _

theorem keeps_getHealth : Leaves S getHealth :=
  (Blind.perform reads_probe).bind fun _ => Leaves.get.bind fun _ => .pure _

theorem keeps_getReadiness : Leaves S getReadiness :=
  (Blind.perform reads_probe).bind fun _ => Leaves.get.bind fun _ => .pure _

theorem keeps_getMetrics : Leaves S getMetrics := Leaves.get.bind fun _ => .pure _

end

/-! ## Requests that change something -/

/-- What a request has changed, and who asked for it. -/
inductive Changed (r : Request) (g h : Gateway) : Prop
  | own {key : ApiKey} {t : Tenant}
      (hkey : ApiKey.extract (r.header "authorization") (r.header "x-api-key") = .ok key)
      (hknows : g.Knows key.text t) (hchange : ChangesEvents t.id g.pipeline h.pipeline)
  | events {tenant : TenantId} (hadmin : CarriesAdminKey g.adminKey r)
      (hchange : ChangesEvents tenant g.pipeline h.pipeline)
  | tenants (hadmin : CarriesAdminKey g.adminKey r) (hchange : ManagesTenants g.pipeline h.pipeline)

/-- A request was answered with success and has changed something. -/
structure Done (r : Request) (g : Gateway) (a : Answer) (h : Gateway) : Prop where
  status : a.status < 400
  rules : SameRules g h
  changed : Changed r g h

theorem SameRules.trans {i : Gateway} (h₁ : SameRules g h) (h₂ : SameRules h i) : SameRules g i :=
  ⟨h₂.memory.trans h₁.memory, h₂.limit.trans h₁.limit, h₂.adminKey.trans h₁.adminKey,
    fun hg => h₂.faithful (h₁.faithful hg)⟩

private theorem SameRules.of_changesEvents {p : Pipeline} {tenant : TenantId} (hk : Kept g h)
    (hp : ChangesEvents tenant h.pipeline p) : SameRules g { h with pipeline := p } :=
  hk.toSameRules.trans ⟨rfl, rfl, rfl, fun hh => hh.of_registry hp.registry⟩

private theorem ends_own {α β : Type} {read : Serving α} {act : Context → α → Action β} {answer : α → β → Answer}
    (hread : Leaves Kept read)
    (hact : ∀ ctx x p, Ends (act ctx x) p
      (fun _ q => ∃ tenant, ctx.tenant = some tenant ∧ ChangesEvents tenant p q) fun _ q => SameStores p q)
    (hstatus : ∀ x y, (answer x y).status < 400) (m : Moment) (r : Request) (g : Gateway) :
    Ends (do
        let ctx ← authenticate m r
        let x ← read
        return answer x (← perform (act ctx x))) g (Done r g) fun _ h => Kept g h := by
  refine (ends_authenticate m r g).bind ?_ fun _ _ h => h
  rintro ctx h ⟨hh, key, t, hkey, hknows, rfl⟩
  refine (hread h).bind (fun x k hk => ?_) fun _ _ hk => Trans.trans hh hk
  have hk : Kept g k := Trans.trans hh hk
  refine (ends_perform (hact _ x k.pipeline)).bind ?_ fun _ _ hl => Trans.trans hk hl
  rintro y _ ⟨p, rfl, tenant, htenant, hp⟩
  cases htenant
  exact .pure ⟨hstatus x y, .of_changesEvents hk hp, .own hkey hknows (hk.stores.changesEvents hp)⟩

private theorem ends_postEvent (m : Moment) (r : Request) (g : Gateway) :
    Ends (postEvent m r) g (Done r g) fun _ h => Kept g h :=
  ends_own (keeps_readContent _ r)
    (fun ctx request p => Write.ends_perform_changes (.create ctx request m.now (m.fresh 1)) p)
    (fun _ _ => (by decide : 201 < 400)) m r g

private theorem ends_postEvents (m : Moment) (r : Request) (g : Gateway) :
    Ends (postEvents m r) g (Done r g) fun _ h => Kept g h :=
  ends_own (keeps_readContent _ r)
    (fun ctx requests p =>
      Write.ends_perform_changes (.createAll ctx requests m.now fun i => m.fresh (i + 1)) p)
    (fun _ _ => (by decide : 201 < 400)) m r g

private theorem ends_cleanUp (m : Moment) (r : Request) (g : Gateway) :
    Ends (cleanUp m r) g (Done r g) fun _ h => Kept g h := by
  refine ends_own (keeps_readPolicy r) (fun ctx policy p => ?_) (fun _ _ => (by decide : 200 < 400)) m r g
  refine (ends_purge m.now ctx policy p).mono ?_ fun _ _ h => h
  rintro _ q ⟨tenant, htenant, hq, -⟩
  exact ⟨tenant, htenant, hq⟩

/-! Administrators are let in before anything is read, and what they ask for is read before anything is
done. -/

/-- What a gateway remembers after a change of the registry that concerns one tenant at most, whose key it
then forgets. -/
theorem Faithful.forget (hg : g.Faithful) {p : Pipeline} {t : Tenant} (ht : t ∈ g.pipeline.registry.tenants)
    (hothers : ∀ u ∈ g.pipeline.registry.tenants, u.id ≠ t.id → u ∈ p.registry.tenants) :
    Faithful { g with pipeline := p, known := g.known.erase t.apiKey } := by
  rintro key u (⟨found, hfound⟩ | hregistered)
  · simp only [Table.get?_erase] at hfound
    split at hfound
    · cases hfound
    · rename_i hne
      obtain ⟨hu, hkey⟩ := Registry.ofKey?_eq_some.mp (hg key u (.inl ⟨found, hfound⟩))
      refine Registry.ofKey?_eq_some.mpr ⟨hothers u hu fun hid => hne ?_, hkey⟩
      rw [← hkey, Registry.eq_of_id hu ht hid]
  · exact hregistered

private theorem ends_postTenant (m : Moment) (r : Request) (g : Gateway) :
    Ends (postTenant m r) g (Done r g) fun _ h => Kept g h := by
  refine (ends_authorize r g).bind ?_ fun _ _ h => h
  rintro _ _ ⟨rfl, hadmin⟩
  refine (keeps_readContent (S := Kept) NewTenant.read r g).bind (fun request h hh => ?_) fun _ _ hh => hh
  refine (ends_perform (ends_registerTenant m.now (m.fresh 1) (m.fresh 2) request h.pipeline)).bind ?_
    fun _ _ hk => Trans.trans hh hk
  rintro t _ ⟨p, rfl, -, hcreate, -, hp⟩
  have hrules : SameRules h { h with pipeline := p } := by
    refine ⟨rfl, rfl, rfl, fun hfaithful key u hknows => ?_⟩
    rcases hknows with ⟨found, hfound⟩ | hregistered
    · obtain ⟨hu, hkey⟩ := Registry.ofKey?_eq_some.mp (hfaithful key u (.inl ⟨found, hfound⟩))
      exact Registry.ofKey?_eq_some.mpr ⟨(Registry.mem_create hcreate).mpr (.inl hu), hkey⟩
    · exact hregistered
  exact .pure ⟨(by decide : 201 < 400), hh.toSameRules.trans hrules, .tenants hadmin (hh.stores.managesTenants hp)⟩

private theorem ends_putTenant (m : Moment) (r : Request) (id : String) (g : Gateway) :
    Ends (putTenant m r id) g (Done r g) fun _ h => Kept g h := by
  refine (ends_authorize r g).bind ?_ fun _ _ h => h
  rintro _ _ ⟨rfl, hadmin⟩
  refine (keeps_readSegment (S := Kept) id g).bind (fun segment h hh => ?_) fun _ _ hh => hh
  refine (keeps_readContent (S := Kept) TenantUpdate.read r h).bind (fun request i hi => ?_)
    fun _ _ hi => Trans.trans hh hi
  have hi : Kept g i := Trans.trans hh hi
  refine (keeps_accept (S := Kept) (TenantId.parse segment) i).bind (fun tenant j hj => ?_)
    fun _ _ hj => Trans.trans hi hj
  have hj : Kept g j := Trans.trans hi hj
  refine (ends_perform (ends_renameTenant m.now tenant request j.pipeline)).bind ?_
    fun _ _ hk => Trans.trans hj hk
  rintro t _ ⟨p, rfl, -, ⟨old, hold, rfl⟩, hupdate, -, hp⟩
  have hrules : SameRules j { j with pipeline := p, known := j.known.erase old.apiKey } := by
    refine ⟨rfl, rfl, rfl, fun hfaithful => hfaithful.forget (Registry.get?_eq_some.mp hold).1 ?_⟩
    intro u hu hne
    exact (Registry.mem_update hupdate).mpr (.inr ⟨hu, hne⟩)
  refine Ends.bind (Ends.modify ?_) (fun _ _ h => .pure h) fun _ _ h => h
  exact ⟨(by decide : 200 < 400), hj.toSameRules.trans hrules, .tenants hadmin (hj.stores.managesTenants hp)⟩

private theorem ends_deleteTenantAnswer (r : Request) (id : String) (g : Gateway) :
    Ends (deleteTenantAnswer r id) g (Done r g) fun _ h => Kept g h := by
  refine (ends_authorize r g).bind ?_ fun _ _ h => h
  rintro _ _ ⟨rfl, hadmin⟩
  refine (keeps_readTenantId (S := Kept) id g).bind (fun tenant h hh => ?_) fun _ _ hh => hh
  refine (ends_perform (ends_requireTenant tenant h.pipeline)).bind ?_ fun _ _ hi => Trans.trans hh hi
  rintro t _ ⟨_, rfl, ht, rfl⟩
  refine (ends_perform (ends_removeTenant tenant h.pipeline)).bind ?_ fun _ _ hi => Trans.trans hh hi
  rintro outcome _ ⟨p, rfl, hdelete, -, hp⟩
  obtain ⟨hmem, rfl⟩ := Registry.get?_eq_some.mp ht
  have hrules : SameRules h { h with pipeline := p, known := h.known.erase t.apiKey } := by
    refine ⟨rfl, rfl, rfl, fun hfaithful => hfaithful.forget hmem fun u hu hne => ?_⟩
    have hregistry : p.registry = (h.pipeline.registry.delete t.id).2 := by rw [hdelete]
    rw [hregistry]
    exact Registry.mem_delete.mpr ⟨hu, hne⟩
  refine Ends.bind (Ends.modify ?_) (fun _ _ h => .pure h) fun _ _ h => h
  exact ⟨(by decide : 200 < 400), hh.toSameRules.trans hrules, .tenants hadmin (hh.stores.managesTenants hp)⟩

private theorem ends_deleteTenantEvent (m : Moment) (r : Request) (tenant id : String) (g : Gateway) :
    Ends (deleteTenantEvent m r tenant id) g (Done r g) fun _ h => Kept g h := by
  refine (ends_authorize r g).bind ?_ fun _ _ h => h
  rintro _ _ ⟨rfl, hadmin⟩
  refine (keeps_readSegment (S := Kept) tenant g).bind (fun tenant h hh => ?_) fun _ _ hh => hh
  refine (keeps_readSegment (S := Kept) id h).bind (fun id i hi => ?_) fun _ _ hi => Trans.trans hh hi
  have hi : Kept g i := Trans.trans hh hi
  refine (keeps_accept (S := Kept) (TenantId.parse tenant) i).bind (fun tenant j hj => ?_)
    fun _ _ hj => Trans.trans hi hj
  have hj : Kept g j := Trans.trans hi hj
  refine (keeps_perform (reads_requireTenant tenant) j).bind (fun _ k hk => ?_) fun _ _ hk => Trans.trans hj hk
  have hk : Kept g k := Trans.trans hj hk
  refine (ends_perform (Write.ends_perform_changes (.delete (.system tenant (requestId m r)) id m.now)
    k.pipeline)).bind ?_ fun _ _ hl => Trans.trans hk hl
  rintro receipt _ ⟨p, rfl, owner, -, hp⟩
  exact .pure ⟨(by decide : 200 < 400), .of_changesEvents hk hp, .events hadmin (hk.stores.changesEvents hp)⟩

/-! ## All requests -/

def changing : List Method := [.post, .put, .delete]

private theorem ends_serveMethod (m : Moment) (r : Request) {route : Route} {method : Method}
    (hmethod : method ∈ route.methods) (g : Gateway) :
    Ends (serveMethod m r route method) g
      (fun a h => Kept g h ∨ (method ∈ changing ∧ Done r g a h)) fun _ h => Kept g h := by
  have hreads {a : Serving Answer} (ha : Leaves Kept a) :
      Ends a g (fun a h => Kept g h ∨ (method ∈ changing ∧ Done r g a h)) fun _ h => Kept g h :=
    (ha g).mono (fun _ _ h => .inl h) fun _ _ h => h
  have hchanges {a : Serving Answer} (hin : method ∈ changing)
      (ha : Ends a g (Done r g) fun _ h => Kept g h) :
      Ends a g (fun a h => Kept g h ∨ (method ∈ changing ∧ Done r g a h)) fun _ h => Kept g h :=
    ha.mono (fun _ _ h => .inr ⟨hin, h⟩) fun _ _ h => h
  cases route with
  | events =>
    cases method with
    | post => exact hchanges (by decide) (ends_postEvent m r g)
    | _ => exact hreads (keeps_getEvents m r)
  | eventBatch =>
    cases List.mem_singleton.mp hmethod
    exact hchanges (by decide) (ends_postEvents m r g)
  | eventExport => exact hreads (keeps_getExport m r)
  | eventStats => exact hreads (keeps_getStats m r)
  | eventCleanup =>
    cases List.mem_singleton.mp hmethod
    exact hchanges (by decide) (ends_cleanUp m r g)
  | event id => exact hreads (keeps_getOneEvent m r id)
  | tenants =>
    cases method with
    | post => exact hchanges (by decide) (ends_postTenant m r g)
    | _ => exact hreads (keeps_getTenants r)
  | tenant id =>
    cases method with
    | put => exact hchanges (by decide) (ends_putTenant m r id g)
    | delete => exact hchanges (by decide) (ends_deleteTenantAnswer r id g)
    | _ => exact hreads (keeps_getOneTenant r id)
  | tenantEvent tenant id =>
    cases List.mem_singleton.mp hmethod
    exact hchanges (by decide) (ends_deleteTenantEvent m r tenant id g)
  | health => exact hreads keeps_getHealth
  | readiness => exact hreads keeps_getReadiness
  | liveness => exact hreads (.pure _)
  | metrics => exact hreads keeps_getMetrics

private theorem ends_serveRoute (m : Moment) (r : Request) (route : Route) (g : Gateway) :
    Ends (serveRoute m r route) g
      (fun a h => Kept g h ∨ (r.method ∈ changing ∧ Done r g a h)) fun _ h => Kept g h := by
  unfold serveRoute
  split
  · exact .pure (.inl (refl g))
  · rename_i hmethod
    exact ends_serveMethod m r (by simpa using hmethod) g

/-- The answer to a request, if there is one, and the gateway after it. -/
def served (m : Moment) (r : Request) (g : Gateway) : Option Answer × Gateway := (serve m r).run g

private theorem served_of_route {route : Route} (hmethod : r.method ≠ .options)
    (hroute : Route.ofSegments? r.segments = some route) :
    served m r g =
      match ((serveRoute m r route).run.run g : Except Refusal Answer × Gateway) with
      | (.ok a, h) => (if r.method = .head then some a.withoutContent else some a, h)
      | (.error f, h) => (if r.method = .head then f.toAnswer?.map Answer.withoutContent else f.toAnswer?, h) := by
  unfold served serve
  rw [if_neg hmethod, hroute]
  simp only [StateT.run_bind]
  rcases ((serveRoute m r route).run.run g : Except Refusal Answer × Gateway) with ⟨f | a, h⟩
  · rfl
  · rfl

private theorem served_eq_self (h : r.method = .options ∨ Route.ofSegments? r.segments = none) :
    (served m r g).2 = g := by
  unfold served serve
  by_cases hoptions : r.method = .options
  · rw [if_pos hoptions]
    rfl
  · rw [if_neg hoptions, h.resolve_left hoptions]
    rfl

theorem leaves_served {S : Gateway → Gateway → Prop} [IsPreorder Gateway S]
    (h : ∀ route, Route.ofSegments? r.segments = some route → r.method ∈ route.methods →
      Leaves S (serveMethod m r route r.method)) (g : Gateway) : S g (served m r g).2 := by
  by_cases hoptions : r.method = .options
  · rw [served_eq_self (.inl hoptions)]
    exact refl g
  · cases hroute : Route.ofSegments? r.segments with
    | none =>
      rw [served_eq_self (.inr hroute)]
      exact refl g
    | some route =>
      have hends : Ends (serveRoute m r route) g (fun _ h => S g h) fun _ h => S g h := by
        unfold serveRoute
        split
        · exact .pure (refl g)
        · rename_i hmethod
          exact h route hroute (by simpa using hmethod) g
      rw [served_of_route hoptions hroute]
      unfold Ends at hends
      generalize ((serveRoute m r route).run.run g : Except Refusal Answer × Gateway) = result at hends
      rcases result with ⟨f | a, h⟩
      · exact hends
      · exact hends

theorem serveRoute_of_mem {m : Moment} {r : Request} {route : Route} (h : r.method ∈ route.methods) :
    serveRoute m r route = serveMethod m r route r.method := by
  rw [serveRoute, if_neg (not_not.mpr h)]

/-- What is done for a request ends with its answer, or in a refusal. -/
theorem served_of_ends {m : Moment} {r : Request} {route : Route} {done : Answer → Gateway → Prop}
    {failed : Refusal → Gateway → Prop} (hmethod : r.method ≠ .options ∧ r.method ≠ .head)
    (hroute : Route.ofSegments? r.segments = some route) (h : Ends (serveRoute m r route) g done failed) :
    (∃ a, (served m r g).1 = some a ∧ done a (served m r g).2) ∨
      ∃ refusal, (served m r g).1 = refusal.toAnswer? ∧ failed refusal (served m r g).2 := by
  rw [served_of_route hmethod.1 hroute]
  unfold Ends at h
  rcases hrun : ((serveRoute m r route).run.run g : Except Refusal Answer × Gateway) with ⟨f | a, h'⟩
  · rw [hrun] at h
    exact .inr ⟨f, if_neg hmethod.2, h⟩
  · rw [hrun] at h
    exact .inl ⟨a, if_neg hmethod.2, h⟩

private theorem failure_status (f : Failure) : 400 ≤ f.status := by
  unfold Failure.status
  split <;> decide

theorem status_of_toAnswer? {refusal : Refusal} {a : Answer} (h : refusal.toAnswer? = some a) :
    400 ≤ a.status := by
  unfold Refusal.toAnswer? at h
  split at h
  · cases h
  · cases h
    exact failure_status _
  · cases h
    exact (by decide : 400 ≤ 429)
  · cases h
    exact (by decide : 400 ≤ 400)
  · cases h
    exact (by decide : 400 ≤ 413)
  · cases h
    exact (by decide : 400 ≤ 400)

/-- A request keeps everything, or has a method for changes, is answered with success and has changed what
it may. -/
theorem served_cases (m : Moment) (r : Request) (g : Gateway) :
    Kept g (served m r g).2 ∨
      (r.method ∈ changing ∧ ∃ a, (served m r g).1 = some a ∧ Done r g a (served m r g).2) := by
  by_cases hoptions : r.method = .options
  · rw [served_eq_self (.inl hoptions)]
    exact .inl (refl g)
  · cases hroute : Route.ofSegments? r.segments with
    | none =>
      rw [served_eq_self (.inr hroute)]
      exact .inl (refl g)
    | some route =>
      have hends := ends_serveRoute m r route g
      rw [served_of_route hoptions hroute]
      unfold Ends at hends
      rcases hrun : ((serveRoute m r route).run.run g : Except Refusal Answer × Gateway) with ⟨f | a, h⟩
      · rw [hrun] at hends
        exact .inl hends
      · rw [hrun] at hends
        rcases hends with hkept | ⟨hmethod, hdone⟩
        · exact .inl hkept
        · have hhead : r.method ≠ .head := by
            intro h
            rw [h] at hmethod
            exact absurd hmethod (by decide)
          exact .inr ⟨hmethod, a, if_neg hhead, hdone⟩

/-- A request whose method is not for changes, or that is answered with an error or not at all, leaves the
record store, the registry, the index and the queue as they were. Only the buckets, what is remembered of keys,
the counters and the health may differ, and outages may be used up. -/
theorem refused_or_read_changes_nothing (m : Moment) (r : Request) (g : Gateway)
    (h : r.method ∉ changing ∨ ∀ a ∈ (served m r g).1, 400 ≤ a.status) :
    ∃ known buckets metrics health outages, (served m r g).2 =
      { g with
        pipeline := { g.pipeline with metrics, health, outages }
        known
        limiter := { g.limiter with buckets } } := by
  have hkept : Kept g (served m r g).2 := by
    rcases served_cases m r g with hkept | ⟨hmethod, a, ha, hdone⟩
    · exact hkept
    · rcases h with h | h
      · exact absurd hmethod h
      · have hstatus := hdone.status
        have herror := h a ha
        omega
  exact ⟨_, _, _, _, _, hkept.eq⟩

end Gateway

/-! ## A gateway with one tenant -/

def Tenant.acme : Tenant := ⟨.acme, "Acme", "alk_0123456789abcdef0123456789abcdef", .epoch, .epoch⟩

/-- The first instant, at which nobody has used any identifier. -/
def Moment.first : Moment := ⟨.epoch, 0, fun i => "f" ++ toString i⟩

namespace Gateway

open Http

def ofAcme (limit : RateLimit) : Gateway :=
  let registry : Registry := ⟨.insert .empty .acme .acme, .create .empty (t := .acme) rfl⟩
  new { Pipeline.new 30000 (fun _ => "") with registry } { adminKey := some "sesame" } limit

/-- Administrators ask for an event to be deleted that is not there. -/
def unknownDeletion : Request :=
  ⟨.delete, "/api/v1/admin/tenants/acme/logs/e1", [("X-Admin-Key", "sesame")], ""⟩

theorem unknownDeletion_changes_nothing :
    (∀ a ∈ (served .first unknownDeletion (ofAcme .standard)).1, 400 ≤ a.status) ∧
      ∃ known buckets metrics health outages, (served .first unknownDeletion (ofAcme .standard)).2 =
        { ofAcme .standard with
          pipeline := { (ofAcme .standard).pipeline with metrics, health, outages }
          known
          limiter := { (ofAcme .standard).limiter with buckets } } := by
  have hrefused : ∀ a ∈ (served .first unknownDeletion (ofAcme .standard)).1, 400 ≤ a.status := by
    decide +kernel
  exact ⟨hrefused, refused_or_read_changes_nothing .first unknownDeletion (ofAcme .standard) (.inr hrefused)⟩

end Gateway

end AuditTrail
