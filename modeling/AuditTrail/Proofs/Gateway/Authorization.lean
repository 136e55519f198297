import AuditTrail.Proofs.Gateway.Effects
/-!
# Who may change what

A gateway that can be reached remembers of keys only what the registry says. So whoever changes the events of
a tenant, or has a message about it published, has presented the key under which that very tenant is
registered, or that of the administrators, and only the latter change the registry and the index.
-/

namespace AuditTrail

namespace Gateway

open Http Pipeline

/-! ## Keys -/

/-- A request presents a key: as its bearer token, or in the other header if it has no bearer token, blanks
at the ends aside. -/
def Presents (r : Request) (key : String) : Prop :=
  (∃ token, r.header "authorization" = some ("Bearer " ++ token) ∧ Text.trim token = key) ∨
    (∀ token, r.header "authorization" ≠ some ("Bearer " ++ token)) ∧
      ∃ value, r.header "x-api-key" = some value ∧ Text.trim value = key

private theorem dropMark?_eq_some {mark text rest : List Char} :
    ApiKey.dropMark? mark text = some rest ↔ text = mark ++ rest := by
  unfold ApiKey.dropMark?
  split
  · rename_i hprefix
    obtain ⟨tail, rfl⟩ := List.isPrefixOf_iff_prefix.mp hprefix
    simp
  · rename_i hprefix
    simp only [reduceCtorEq, false_iff]
    rintro rfl
    exact hprefix (List.isPrefixOf_iff_prefix.mpr (List.prefix_append _ _))

private theorem text_of_parse {text : String} {key : ApiKey} (h : ApiKey.parse text = .ok key) : key.text = text := by
  unfold ApiKey.parse at h
  split at h
  · cases h
  · split at h
    · cases h
      rfl
    · cases h

theorem presents_of_extract {r : Request} {key : ApiKey}
    (h : ApiKey.extract (r.header "authorization") (r.header "x-api-key") = .ok key) : Presents r key.text := by
  unfold ApiKey.extract at h
  split at h
  · rename_i token htoken
    obtain ⟨value, hvalue, hdrop⟩ := Option.bind_eq_some_iff.mp htoken
    have hlist := dropMark?_eq_some.mp hdrop
    refine .inl ⟨String.ofList token, ?_, ?_⟩
    · rw [hvalue, Option.some_inj, ← String.toList_inj, hlist]
      simp
    · rw [text_of_parse h, Text.trim, String.toList_ofList]
  · rename_i hnone
    split at h
    · rename_i value hvalue
      refine .inr ⟨?_, value, hvalue, (text_of_parse h).symm⟩
      intro token htoken
      have hdrop := dropMark?_eq_some.mpr (String.toList_append (s := "Bearer ") (t := token))
      rw [htoken, Option.bind_some, hdrop] at hnone
      cases hnone
    · cases h

private theorem parse_text (key : ApiKey) : ApiKey.parse key.text = .ok key := by
  have hsome : key.text.isEmpty = false := by
    rw [← Bool.not_eq_true, String.isEmpty_iff]
    intro hempty
    have hwellFormed := key.wellFormed
    rw [hempty] at hwellFormed
    exact absurd hwellFormed (by decide)
  simp [ApiKey.parse, hsome, key.wellFormed]

theorem extract_of_presents {r : Request} {key : ApiKey} (h : Presents r key.text) :
    ApiKey.extract (r.header "authorization") (r.header "x-api-key") = .ok key := by
  rcases h with ⟨token, hheader, htoken⟩ | ⟨hnone, value, hheader, hvalue⟩
  · have hdrop := dropMark?_eq_some.mpr (String.toList_append (s := "Bearer ") (t := token))
    unfold ApiKey.extract
    rw [hheader, Option.bind_some, hdrop]
    exact (congrArg ApiKey.parse htoken).trans (parse_text key)
  · have hbearer : ((r.header "authorization").bind fun a => ApiKey.dropMark? "Bearer ".toList a.toList) = none := by
      rw [Option.bind_eq_none_iff]
      intro a ha
      by_contra hsome
      obtain ⟨rest, hrest⟩ := Option.ne_none_iff_exists'.mp hsome
      refine hnone (String.ofList rest) ?_
      rw [ha, Option.some_inj, ← String.toList_inj, dropMark?_eq_some.mp hrest]
      simp
    unfold ApiKey.extract
    rw [hbearer, hheader]
    exact (congrArg ApiKey.parse hvalue).trans (parse_text key)

theorem presents_acme {r : Request} (h : r.headers = [("X-API-Key", Tenant.acme.apiKey)]) :
    Presents r Tenant.acme.apiKey := by
  have hbearer : r.header "authorization" = none := by rw [Request.header, h]; decide +kernel
  have hkey : r.header "x-api-key" = some Tenant.acme.apiKey := by rw [Request.header, h]; decide +kernel
  exact .inr ⟨by simp [hbearer], _, hkey, by decide +kernel⟩

/-! ## Gateways that can be reached -/

/-- The gateways that can be: one that is new, and what becomes of it by serving requests, by forgetting
buckets, and by whatever is done behind it, as long as registered keys stay with their tenants. -/
inductive Reachable (auth : AuthSettings) (limit : RateLimit) : Gateway → Prop
  | new (p : Pipeline) : Reachable auth limit (.new p auth limit)
  | serve {g : Gateway} (before : Reachable auth limit g) (m : Moment) (r : Request) :
      Reachable auth limit (served m r g).2
  | behind {g : Gateway} (before : Reachable auth limit g) (p : Pipeline)
      (hkeys : ∀ key t, g.pipeline.registry.ofKey? key = some t → p.registry.ofKey? key = some t) :
      Reachable auth limit { g with pipeline := p }
  | tidy {g : Gateway} (before : Reachable auth limit g) (maxAge elapsed : Nat) :
      Reachable auth limit { g with limiter := g.limiter.cleanup maxAge elapsed }

theorem Faithful.new (p : Pipeline) (auth : AuthSettings) (limit : RateLimit) :
    (Gateway.new p auth limit).Faithful := by
  rintro key t (⟨found, hfound⟩ | hregistered)
  · cases hfound
  · exact hregistered

theorem sameRules_served (m : Moment) (r : Request) (g : Gateway) : SameRules g (served m r g).2 := by
  rcases served_cases m r g with hkept | ⟨-, a, -, hdone⟩
  · exact hkept.toSameRules
  · exact hdone.rules

namespace Reachable

variable {auth : AuthSettings} {limit : RateLimit} {g : Gateway}

theorem faithful (h : Reachable auth limit g) : g.Faithful := by
  induction h with
  | new p => exact .new p auth limit
  | serve before m r ih => exact (sameRules_served m r _).faithful ih
  | behind before p hkeys ih =>
    rintro key t (⟨found, hfound⟩ | hregistered)
    · exact hkeys key t (ih key t (.inl ⟨found, hfound⟩))
    · exact hregistered
  | tidy before maxAge elapsed ih => exact ih

theorem adminKey (h : Reachable auth limit g) : g.adminKey = auth.adminKey.filter fun key => !key.isEmpty := by
  induction h with
  | new p => rfl
  | serve before m r ih => exact (sameRules_served m r _).adminKey.trans ih
  | behind before p hkeys ih => exact ih
  | tidy before maxAge elapsed ih => exact ih

theorem limit_eq (h : Reachable auth limit g) : g.limiter.limit = limit := by
  induction h with
  | new p => rfl
  | serve before m r ih => exact (sameRules_served m r _).limit.trans ih
  | behind before p hkeys ih => exact ih
  | tidy before maxAge elapsed ih => exact ih

private theorem carriesAdminKey (h : Reachable auth limit g) {r : Request} (hr : CarriesAdminKey g.adminKey r) :
    CarriesAdminKey auth.adminKey r := by
  obtain ⟨value, hvalue, hsome, hkey⟩ := hr
  rw [h.adminKey] at hkey
  exact ⟨value, hvalue, hsome, (Option.filter_eq_some_iff.mp hkey).1⟩

end Reachable

/-! ## Changes -/

/-- A request is permitted to change the events of a tenant: it carries the key of the administrators, or
presents the key of the tenant that is registered. -/
def Permitted (auth : AuthSettings) (g : Gateway) (r : Request) (tenant : TenantId) : Prop :=
  CarriesAdminKey auth.adminKey r ∨
    ∃ t, g.pipeline.registry.get? tenant = some t ∧ Presents r t.apiKey

/-- The events of no tenant but one have changed. -/
def OthersKept (tenant : TenantId) (g h : Gateway) : Prop :=
  ∀ other, other ≠ tenant →
    h.pipeline.records.rows.ofTenant other = g.pipeline.records.rows.ofTenant other

/-- What a request changes is all of one tenant whom it may change, or it is of the administrators. -/
private theorem Reachable.changed_cases {auth : AuthSettings} {limit : RateLimit} {g : Gateway}
    (hg : Reachable auth limit g) (m : Moment) (r : Request) :
    SameStores g.pipeline (served m r g).2.pipeline ∨
      (∃ tenant, Permitted auth g r tenant ∧ ChangesEvents tenant g.pipeline (served m r g).2.pipeline) ∨
      (CarriesAdminKey auth.adminKey r ∧ ManagesTenants g.pipeline (served m r g).2.pipeline) := by
  rcases served_cases m r g with hkept | ⟨-, a, -, -, -, hchanged⟩
  · exact .inl hkept.stores
  · cases hchanged with
    | @own key t hkey hknows hchange =>
      obtain ⟨hmem, htext⟩ := Registry.ofKey?_eq_some.mp (hg.faithful key.text t hknows)
      refine .inr (.inl ⟨t.id, .inr ⟨t, Registry.get?_eq_some.mpr ⟨hmem, rfl⟩, ?_⟩, hchange⟩)
      rw [htext]
      exact presents_of_extract hkey
    | @events tenant hadmin hchange =>
      exact .inr (.inl ⟨tenant, .inl (hg.carriesAdminKey hadmin), hchange⟩)
    | tenants hadmin hchange => exact .inr (.inr ⟨hg.carriesAdminKey hadmin, hchange⟩)

/-- Only administrators change the registry or the index, and nobody does without a key of theirs. The rows of
a tenant change, or a message about it enters the queue, only for a request that carries the key of the
administrators or presents the key of that tenant; the rows of all others are then kept. -/
theorem Reachable.changes_authorized {auth : AuthSettings} {limit : RateLimit} {g : Gateway}
    (hg : Reachable auth limit g) (m : Moment) (r : Request) :
    let h := (served m r g).2
    ((h.pipeline.registry ≠ g.pipeline.registry ∨ h.pipeline.index ≠ g.pipeline.index) →
        CarriesAdminKey auth.adminKey r) ∧
      (∀ tenant, h.pipeline.records.rows.ofTenant tenant ≠ g.pipeline.records.rows.ofTenant tenant →
        Permitted auth g r tenant ∧ OthersKept tenant g h) ∧
      (h.pipeline.queue ≠ g.pipeline.queue → ∃ message : Message,
        h.pipeline.queue = g.pipeline.queue.send message ∧
          Permitted auth g r message.tenant ∧ OthersKept message.tenant g h) ∧
      (auth.adminKey = none ∨ auth.adminKey = some "" →
        h.pipeline.registry = g.pipeline.registry ∧ h.pipeline.index = g.pipeline.index) := by
  intro h
  have hnobody : auth.adminKey = none ∨ auth.adminKey = some "" → ¬ CarriesAdminKey auth.adminKey r := by
    rintro hkey ⟨value, -, hsome, hvalue⟩
    rw [hvalue] at hkey
    simp [hsome] at hkey
  rcases hg.changed_cases m r with hsame | ⟨tenant, hpermitted, hchange⟩ | ⟨hadmin, hchange⟩
  · refine ⟨?_, ?_, ?_, fun _ => ⟨hsame.registry, hsame.index⟩⟩
    · rintro (hne | hne)
      · exact absurd hsame.registry hne
      · exact absurd hsame.index hne
    · intro tenant hne
      exact absurd (by rw [hsame.records]) hne
    · intro hne
      exact absurd hsame.queue hne
  · have hothers : OthersKept tenant g h := hchange.rows
    refine ⟨?_, ?_, ?_, fun _ => ⟨hchange.registry, hchange.index⟩⟩
    · rintro (hne | hne)
      · exact absurd hchange.registry hne
      · exact absurd hchange.index hne
    · intro owner hne
      have howner : owner = tenant := by
        by_contra hother
        exact hne (hothers owner hother)
      subst howner
      exact ⟨hpermitted, hothers⟩
    · intro hne
      rcases hchange.queue with hqueue | ⟨message, rfl, hqueue⟩
      · exact absurd hqueue hne
      · exact ⟨message, hqueue, hpermitted, hothers⟩
  · refine ⟨fun _ => hadmin, ?_, ?_, fun hkey => absurd hadmin (hnobody hkey)⟩
    · intro tenant hne
      exact absurd (by rw [hchange.records]) hne
    · intro hne
      exact absurd hchange.queue hne

/-- Administrators ask for a tenant to be deleted. -/
def removal : Request := ⟨.delete, "/api/v1/admin/tenants/acme", [("X-Admin-Key", " sesame ")], ""⟩

/-- A removal goes through, so its request has carried the key. -/
theorem removal_authorized :
    (served .first removal (ofAcme .standard)).2.pipeline.registry.tenants = [] ∧
      CarriesAdminKey (some "sesame") removal := by
  have hremoved : (served .first removal (ofAcme .standard)).2.pipeline.registry.tenants = [] := by
    decide +kernel
  have hreachable : Reachable { adminKey := some "sesame" } .standard (ofAcme .standard) := .new _
  refine ⟨hremoved, (hreachable.changes_authorized .first removal).1 (.inl ?_)⟩
  intro heq
  rw [heq] at hremoved
  cases hremoved

end Gateway

end AuditTrail
