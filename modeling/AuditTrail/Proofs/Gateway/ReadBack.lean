import AuditTrail.Proofs.Gateway.Authorization
import AuditTrail.Proofs.Http.Percent
import AuditTrail.Proofs.Json.Structures
import Mathlib.Data.String.Basic
/-!
# Reading an event back

An event that a tenant has just written is in the record store, and the tenant may ask for it by its
identifier. The answer is the event, unless the identifier is one of the four words that are segments of other
paths: then the request is not for the event.
-/

namespace AuditTrail

open Http Pipeline

private theorem NewEvent.eventId_ne_empty (q : NewEvent) {freshId : String} (h : freshId ≠ "") :
    q.eventId freshId ≠ "" := by
  unfold eventId
  split
  · rename_i id _
    split
    · exact h
    · rename_i hblank
      rintro rfl
      exact hblank rfl
  · exact h

namespace Gateway

variable {g : Gateway}

/-! ## Tenants who are let in -/

/-- Nothing keeps a gateway from letting a tenant in who presents a key: the key is registered, nobody is
limited and no seam is out of order. -/
structure LetsIn (g : Gateway) (key : ApiKey) (t : Tenant) : Prop where
  faithful : g.Faithful
  up : g.pipeline.outages = .empty
  unlimited : g.limiter.limit.enabled = false
  registered : g.pipeline.registry.ofKey? key.text = some t

theorem LetsIn.kept {h : Gateway} {key : ApiKey} {t : Tenant} (hg : LetsIn g key t) (hk : Kept g h) :
    LetsIn h key t where
  faithful := hk.faithful hg.faithful
  up := hk.stores.outages hg.up
  unlimited := by rw [hk.limit]; exact hg.unlimited
  registered := by rw [hk.stores.registry]; exact hg.registered

private theorem finds_owner {key : ApiKey} {t : Tenant} (hg : LetsIn g key t) (elapsed : Nat) :
    Ends (ownerOf key elapsed) g (fun _ _ => True) fun _ _ => False := by
  refine (ends_ownerOf_registered hg.faithful hg.up key elapsed).mono (fun _ _ _ => trivial) ?_
  rintro f _ ⟨hnone, -⟩
  rw [hg.registered] at hnone
  cases hnone

private theorem takes_token {key : ApiKey} {t : Tenant} (hg : LetsIn g key t) (tenant : TenantId) (elapsed : Nat) :
    Ends (takeToken tenant elapsed) g (fun _ _ => True) fun _ _ => False := by
  have hcheck : g.limiter.check tenant.name elapsed = (.ok (), g.limiter) := by
    simp [RateLimiter.check, hg.unlimited]
  unfold takeToken
  refine (Ends.got g).bind ?_ fun _ _ h => h
  rintro _ _ ⟨rfl, rfl⟩
  rw [hcheck]
  exact trivial

theorem ends_authenticate_letIn {key : ApiKey} {t : Tenant} (hg : LetsIn g key t) (m : Moment) {r : Request}
    (hkey : ApiKey.extract (r.header "authorization") (r.header "x-api-key") = .ok key) :
    Ends (authenticate m r) g (fun ctx h => ctx = .ofTenant t.id (requestId m r) ∧ Kept g h)
      fun _ _ => False := by
  have hlet : Ends (authenticate m r) g (fun _ _ => True) fun _ _ => False := by
    refine Ends.bind (?_ : Ends _ g (fun k h => k = key ∧ g = h) fun _ _ => False) ?_ fun _ _ h => h
    · rw [hkey]
      exact .pure ⟨rfl, rfl⟩
    · rintro _ _ ⟨rfl, rfl⟩
      have howner := (finds_owner hg m.elapsed).and (ends_ownerOf _ m.elapsed g)
      refine Ends.bind (Ends.adapt (howner.mono (fun _ _ h => h) fun _ _ h => h.1) :
        Ends _ g _ fun _ _ => False) ?_ fun _ _ h => h
      rintro u h ⟨-, hh, -⟩
      exact (takes_token (hg.kept hh) u.id m.elapsed).bind (fun _ _ _ => .pure trivial) fun _ _ h => h
  refine (hlet.and (ends_authenticate m r g)).mono ?_ fun _ _ h => h.1
  rintro ctx h ⟨-, hh, k, u, hk, hknows, rfl⟩
  rw [hkey] at hk
  cases hk
  have hu := hg.faithful key.text u hknows
  rw [hg.registered] at hu
  cases hu
  exact ⟨rfl, hh⟩

/-! ## Writing -/

private theorem ends_readContent {α : Type} (read : Json.Reader α) (r : Request) (g : Gateway) :
    Ends (readContent read r) g (fun x h => read.ofBytes r.body.bytes = some x ∧ g = h) fun _ _ => True := by
  have hcheck : Ends (checkContent r) g (fun _ h => g = h) fun _ _ => True := by
    unfold checkContent
    split
    · exact .throw trivial
    · exact .pure rfl
  refine hcheck.bind ?_ fun _ _ h => h
  rintro _ _ rfl
  split
  · rename_i x hx
    exact .pure ⟨hx, rfl⟩
  · exact .throw trivial

private theorem ends_createEvent {p : Pipeline} (hup : p.outages = .empty) (now : Instant) (freshId : String)
    (ctx : Context) (q : NewEvent) :
    Ends (createEvent now freshId ctx q) p
      (fun receipt s => ∃ tenant e, ctx.tenant = some tenant ∧ q.accept tenant now freshId = .ok e ∧
        receipt = ⟨[e.id], .ok⟩ ∧ s.records.rows.get? tenant e.id = some e ∧
        s.queue = p.queue.send (.index e now) ∧ s.registry = p.registry ∧ s.outages = .empty)
      fun _ _ => True := by
  cases heffect : (Write.create ctx q now freshId).effect p.records with
  | error f =>
    obtain ⟨metrics, hrun⟩ := Write.outcome_perform_error hup heffect
    exact ends_of_error hrun trivial
  | ok x =>
    obtain ⟨metrics, hrun⟩ := Write.outcome_perform_ok hup heffect
    have hrows := Write.effect_rows heffect
    simp only [Write.effect, Failure.bind_eq_ok] at heffect
    obtain ⟨tenant, htenant, e, haccept, records, -, hx⟩ := heffect
    cases hx
    refine ends_of_ok hrun ⟨tenant, e, Context.writeTenant_eq_ok.mp htenant, haccept, rfl, ?_, rfl, rfl, hup⟩
    rw [hrows, EventTable.absorb_of_ne_delete (by simp [Message.index]), ← (NewEvent.accept_eq_ok haccept).1]
    exact (EventTable.get?_put _ e e.tenant e.id).trans (if_pos rfl)

/-- An event that a tenant has just written, the answer to it and the gateways before and after it. -/
structure Stored (t : Tenant) (m : Moment) (r : Request) (e : Event) (a : Answer) (g h : Gateway) : Prop where
  answer : a = receiptAnswer 201 ⟨[e.id], .ok⟩
  accepted : ∃ q, NewEvent.read.ofBytes r.body.bytes = some q ∧ q.accept t.id m.now (m.fresh 1) = .ok e
  row : h.pipeline.records.rows.get? t.id e.id = some e
  published : h.pipeline.queue = g.pipeline.queue.send (.index e m.now)
  up : h.pipeline.outages = .empty

theorem ends_postEvent_stored (hup : g.pipeline.outages = .empty) (m : Moment) (r : Request) :
    Ends (postEvent m r) g
      (fun a h => ∃ key t e, ApiKey.extract (r.header "authorization") (r.header "x-api-key") = .ok key ∧
        g.Knows key.text t ∧ h.pipeline.registry = g.pipeline.registry ∧ Stored t m r e a g h)
      fun _ _ => True := by
  refine (ends_authenticate m r g).bind ?_ fun _ _ _ => trivial
  rintro _ h ⟨hh, key, t, hkey, hknows, rfl⟩
  refine (ends_readContent NewEvent.read r h).bind ?_ fun _ _ _ => trivial
  rintro q _ ⟨hread, rfl⟩
  refine (ends_performed (ends_createEvent (hh.stores.outages hup) m.now (m.fresh 1)
    (.ofTenant t.id (requestId m r)) q)).bind ?_ fun _ _ _ => trivial
  rintro _ _ ⟨p, rfl, tenant, e, htenant, haccept, rfl, hrow, hqueue, hregistry, hp⟩
  cases htenant
  rw [hh.stores.queue] at hqueue
  exact .pure ⟨key, t, e, hkey, hknows, hregistry.trans hh.stores.registry, rfl, ⟨q, hread, haccept⟩, hrow,
    hqueue, hp⟩

/-! ## Reading -/

private theorem ends_getOneEvent {key : ApiKey} {t : Tenant} (hg : LetsIn g key t) (m : Moment) {r : Request}
    (hkey : ApiKey.extract (r.header "authorization") (r.header "x-api-key") = .ok key) {e : Event}
    (he : g.pipeline.records.rows.get? t.id e.id = some e) :
    Ends (getOneEvent m r (encodeSegment e.id)) g (fun a _ => a = .json 200 e.toJson) fun _ _ => False := by
  refine (ends_authenticate_letIn hg m hkey).bind ?_ fun _ _ h => h
  rintro _ h ⟨rfl, hh⟩
  have hsegment : readSegment (encodeSegment e.id) = pure e.id := by
    rw [readSegment, decodeSegment?_encodeSegment]
  rw [hsegment, pure_bind]
  have hrun : outcome (getEvent (.ofTenant t.id (requestId m r)) e.id) h.pipeline = (.ok e, h.pipeline) := by
    simp [getEvent, outcome_getRecord (hh.stores.outages hg.up), RecordStore.get, Context.ofTenant,
      Context.requireTenant, hh.stores.records, he]
  have hget : Ends (getEvent (.ofTenant t.id (requestId m r)) e.id) h.pipeline (fun d _ => d = e)
      fun _ _ => False := ends_of_ok hrun rfl
  refine (ends_performed hget).bind ?_ ?_
  · rintro _ _ ⟨p, rfl, rfl⟩
    exact .pure rfl
  · rintro _ _ ⟨_, _, h⟩
    exact h

/-! ## Other paths

Statistics and exports are answered, but with something else than the event. -/

private theorem ends_any {α : Type} (a : Serving α) (g : Gateway) : Ends a g (fun _ _ => True) fun _ _ => True := by
  unfold Ends
  split <;> trivial

private theorem ends_getStats (m : Moment) (r : Request) (e : Event) (g : Gateway) :
    Ends (getStats m r) g (fun a _ => a ≠ .json 200 e.toJson) fun _ _ => True := by
  refine (ends_any _ g).bind (fun _ h _ => ?_) fun _ _ h => h
  refine (ends_any _ h).bind (fun f h _ => ?_) fun _ _ h => h
  refine (ends_any _ h).bind (fun statistics h _ => .pure ?_) fun _ _ h => h
  simp [Answer.json, Event.toJson]

private theorem ends_getExport (m : Moment) (r : Request) (e : Event) (g : Gateway) :
    Ends (getExport m r) g (fun a _ => a ≠ .json 200 e.toJson) fun _ _ => True := by
  refine (ends_any _ g).bind (fun _ h _ => ?_) fun _ _ h => h
  refine (ends_any _ h).bind (fun (format, f) h _ => ?_) fun _ _ h => h
  refine (ends_any _ h).bind (fun text h _ => .pure ?_) fun _ _ h => h
  simp [Answer.json]

private theorem ofSegments?_event {s : String} (h : s ∉ ["bulk", "export", "stats", "cleanup"]) (hs : s ≠ "") :
    Route.ofSegments? ["", "api", "v1", "logs", s] = some (.event s) := by
  simp at h
  simp [Route.ofSegments?, Route.segment?, h, hs]

/-! ## Words that are segments of other paths -/

private theorem encodeSegment_word : ∀ w ∈ ["bulk", "export", "stats", "cleanup"], encodeSegment w = w := by
  decide +kernel

private theorem encodeSegment_mem_iff {s : String} :
    encodeSegment s ∈ ["bulk", "export", "stats", "cleanup"] ↔ s ∈ ["bulk", "export", "stats", "cleanup"] := by
  have hread : ∀ w ∈ ["bulk", "export", "stats", "cleanup"], decodeSegment? w = some w := by decide +kernel
  constructor
  · intro h
    have hdecode := hread _ h
    rw [decodeSegment?_encodeSegment, Option.some_inj] at hdecode
    rw [hdecode]
    exact h
  · intro h
    rw [encodeSegment_word s h]
    exact h

private theorem route_of_word {w : String} (h : w ∈ ["bulk", "export", "stats", "cleanup"]) :
    ∃ route, Route.ofSegments? ["", "api", "v1", "logs", w] = some route ∧
      (.get ∉ route.methods ∨ route = .eventExport ∨ route = .eventStats) := by
  simp only [List.mem_cons, List.not_mem_nil, or_false] at h
  rcases h with rfl | rfl | rfl | rfl
  · exact ⟨.eventBatch, rfl, .inl (by decide)⟩
  · exact ⟨.eventExport, rfl, .inr (.inl rfl)⟩
  · exact ⟨.eventStats, rfl, .inr (.inr rfl)⟩
  · exact ⟨.eventCleanup, rfl, .inl (by decide)⟩

/-- A request for the event is not answered with it when its identifier is such a word. -/
private theorem shadowed {m : Moment} {s : Request} {e : Event} (hmethod : s.method = .get)
    (htarget : s.target = "/api/v1/logs/" ++ encodeSegment e.id)
    (hid : e.id ∈ ["bulk", "export", "stats", "cleanup"]) (g : Gateway) :
    (served m s g).1 ≠ some (.json 200 e.toJson) := by
  obtain ⟨route, hroute, hcases⟩ := route_of_word hid
  rw [← encodeSegment_word e.id hid, ← segments_of_event htarget] at hroute
  have hends : Ends (serveRoute m s route) g (fun a _ => a ≠ .json 200 e.toJson) fun _ _ => True := by
    rcases hcases with hget | rfl | rfl
    · rw [serveRoute, if_pos (by rw [hmethod]; exact hget)]
      exact .pure (by simp [Answer.json])
    · rw [serveRoute_of_mem (by rw [hmethod]; decide)]
      exact ends_getExport m s e g
    · rw [serveRoute_of_mem (by rw [hmethod]; decide)]
      exact ends_getStats m s e g
  rcases served_of_ends (by rw [hmethod]; decide) hroute hends with ⟨a, ha, hne⟩ | ⟨refusal, ha, -⟩
  · rw [ha]
    exact fun h => hne (Option.some_inj.mp h)
  · rw [ha]
    intro h
    have hstatus := status_of_toAnswer? h
    exact absurd hstatus (by decide : ¬ 400 ≤ 200)

/-- A request for an event that is there is answered with it, unless its identifier is such a word. -/
theorem answered {key : ApiKey} {t : Tenant} (hg : LetsIn g key t) {m : Moment} {s : Request} {e : Event}
    (he : g.pipeline.records.rows.get? t.id e.id = some e) (hempty : e.id ≠ "") (hmethod : s.method = .get)
    (htarget : s.target = "/api/v1/logs/" ++ encodeSegment e.id) (hkey : Presents s key.text)
    (hid : e.id ∉ ["bulk", "export", "stats", "cleanup"]) :
    (served m s g).1 = some (.json 200 e.toJson) := by
  have hroute : Route.ofSegments? s.segments = some (.event (encodeSegment e.id)) := by
    rw [segments_of_event htarget]
    exact ofSegments?_event (fun h => hid (encodeSegment_mem_iff.mp h)) (encodeSegment_ne_empty hempty)
  have hends : Ends (serveRoute m s (.event (encodeSegment e.id))) g (fun a _ => a = .json 200 e.toJson)
      fun _ _ => False := by
    rw [serveRoute_of_mem (by simp [hmethod, Route.methods]), hmethod]
    exact ends_getOneEvent hg m (extract_of_presents hkey) he
  rcases served_of_ends (by rw [hmethod]; decide) hroute hends with ⟨a, ha, rfl⟩ | ⟨_, _, hfalse⟩
  · exact ha
  · exact hfalse.elim

theorem served_of_postEvent {m : Moment} {r : Request} {done : Answer → Gateway → Prop}
    {failed : Refusal → Gateway → Prop} (hmethod : r.method = .post)
    (hpath : r.segments = ["", "api", "v1", "logs"]) (h : Ends (postEvent m r) g done failed) :
    (∃ a, (served m r g).1 = some a ∧ done a (served m r g).2) ∨
      ∃ refusal, (served m r g).1 = refusal.toAnswer? ∧ failed refusal (served m r g).2 := by
  have hroute : Route.ofSegments? r.segments = some .events := by rw [hpath]; rfl
  have hserve : serveRoute m r .events = postEvent m r := by
    rw [serveRoute_of_mem (by rw [hmethod]; decide), hmethod]
    rfl
  exact served_of_ends (by rw [hmethod]; decide) hroute (hserve ▸ h)

/-- A request to write an event that can be accepted and is not there yet is answered with 201, and changes the
records alone of what is stored. -/
theorem created_effect {key : ApiKey} {t : Tenant} (hg : LetsIn g key t) {m : Moment} {r : Request} {q : NewEvent}
    {x : Written} (hmethod : r.method = .post) (hpath : r.segments = ["", "api", "v1", "logs"])
    (hkey : Presents r key.text) (hsize : r.body.bytes.length ≤ maxContent)
    (hread : NewEvent.read.ofBytes r.body.bytes = some q)
    (heffect : (Write.create (.ofTenant t.id (requestId m r)) q m.now (m.fresh 1)).effect g.pipeline.records =
      .ok x) :
    (served m r g).1 = some (receiptAnswer 201 ⟨x.ids, .ok⟩) ∧
      (served m r g).2.pipeline.records = x.records ∧
      (served m r g).2.pipeline.registry = g.pipeline.registry ∧
      (served m r g).2.pipeline.index = g.pipeline.index := by
  have hcontent : readContent NewEvent.read r = pure q := by
    rw [readContent, checkContent, if_neg (by omega), hread]
    rfl
  have hends : Ends (postEvent m r) g
      (fun a h => a = receiptAnswer 201 ⟨x.ids, .ok⟩ ∧ h.pipeline.records = x.records ∧
        h.pipeline.registry = g.pipeline.registry ∧ h.pipeline.index = g.pipeline.index)
      fun _ _ => False := by
    refine (ends_authenticate_letIn hg m (extract_of_presents hkey)).bind ?_ fun _ _ h => h
    rintro _ h ⟨rfl, hh⟩
    rw [hcontent, pure_bind]
    rw [← hh.stores.records] at heffect
    obtain ⟨metrics, hrun⟩ := Write.outcome_perform_ok (hh.stores.outages hg.up) heffect
    have hcreate : Ends (createEvent m.now (m.fresh 1) (.ofTenant t.id (requestId m r)) q) h.pipeline
        (fun receipt p => receipt = ⟨x.ids, .ok⟩ ∧ p.records = x.records ∧
          p.registry = h.pipeline.registry ∧ p.index = h.pipeline.index)
        fun _ _ => False := ends_of_ok hrun ⟨rfl, rfl, rfl, rfl⟩
    refine (ends_performed hcreate).bind ?_ fun _ _ ⟨_, _, h⟩ => h
    rintro _ _ ⟨p, rfl, rfl, hrecords, hregistry, hindex⟩
    exact .pure ⟨rfl, hrecords, hregistry.trans hh.stores.registry, hindex.trans hh.stores.index⟩
  rcases served_of_postEvent hmethod hpath hends with ⟨a, ha, rfl, hstored⟩ | ⟨_, _, hfalse⟩
  · exact ⟨ha, hstored⟩
  · exact hfalse.elim

private theorem created {key : ApiKey} {t : Tenant} (hg : LetsIn g key t) {m : Moment} {r : Request} {q : NewEvent}
    {x : Written} (hmethod : r.method = .post) (hpath : r.segments = ["", "api", "v1", "logs"])
    (hkey : Presents r key.text) (hsize : r.body.bytes.length ≤ maxContent)
    (hread : NewEvent.read.ofBytes r.body.bytes = some q)
    (heffect : (Write.create (.ofTenant t.id (requestId m r)) q m.now (m.fresh 1)).effect g.pipeline.records =
      .ok x) :
    (served m r g).1 = some (receiptAnswer 201 ⟨x.ids, .ok⟩) :=
  (created_effect hg hmethod hpath hkey hsize hread heffect).1

/-- An event that a tenant has written, with a request that was answered with 201, is stored with all that the
request says and may be read back at once under the identifier that was answered: just when that is none of the
four words that are segments of other paths. -/
theorem Reachable.written_event_read_back_iff {auth : AuthSettings} {limit : RateLimit}
    (hg : Reachable auth limit g) (hup : g.pipeline.outages = .empty) (hlimit : limit.enabled = false)
    {m : Moment} {r : Request} (hfresh : m.fresh 1 ≠ "") (hmethod : r.method = .post)
    (hpath : r.segments = ["", "api", "v1", "logs"])
    (hcreated : (served m r g).1.map Answer.status = some 201) :
    ∃ (t : Tenant) (q : NewEvent) (e : Event),
      g.pipeline.registry.get? t.id = some t ∧ Presents r t.apiKey ∧
        NewEvent.read.ofBytes r.body.bytes = some q ∧ e.Restates q ∧ e.tenant = t.id ∧
        (served m r g).1 = some (receiptAnswer 201 ⟨[e.id], .ok⟩) ∧
        (served m r g).2.pipeline.records.rows.get? t.id e.id = some e ∧
        ∀ (later : Moment) (s : Request), s.method = .get →
          s.target = "/api/v1/logs/" ++ encodeSegment e.id → Presents s t.apiKey →
            ((served later s (served m r g).2).1 = some (.json 200 e.toJson) ↔
              e.id ∉ ["bulk", "export", "stats", "cleanup"]) := by
  have hroute : Route.ofSegments? r.segments = some .events := by rw [hpath]; rfl
  have hserve : serveRoute m r .events = postEvent m r := by
    rw [serveRoute_of_mem (by rw [hmethod]; decide), hmethod]
    rfl
  rcases served_of_ends (by rw [hmethod]; decide) hroute (hserve ▸ ends_postEvent_stored hup m r) with
    ⟨a, ha, key, t, e, hkey, hknows, hregistry, hstored⟩ | ⟨refusal, hrefused, -⟩
  · obtain ⟨hmem, htext⟩ := Registry.ofKey?_eq_some.mp (hg.faithful key.text t hknows)
    obtain ⟨q, hread, haccept⟩ := hstored.accepted
    have hpresents := presents_of_extract hkey
    rw [← htext] at hpresents
    refine ⟨t, q, e, Registry.get?_eq_some.mpr ⟨hmem, rfl⟩, hpresents, hread, NewEvent.restates_of_accept haccept,
      (NewEvent.accept_eq_ok haccept).1, by rw [ha, hstored.answer], hstored.row, ?_⟩
    intro later s hget htarget hs
    have hrules := sameRules_served m r g
    have hletsIn : LetsIn (served m r g).2 key t := by
      refine ⟨hrules.faithful hg.faithful, hstored.up, ?_, ?_⟩
      · rw [hrules.limit, hg.limit_eq]
        exact hlimit
      · rw [hregistry]
        exact hg.faithful key.text t hknows
    have hempty : e.id ≠ "" := by
      rw [(NewEvent.accept_eq_ok haccept).2.1]
      exact q.eventId_ne_empty hfresh
    rw [htext] at hs
    constructor
    · intro hanswer hid
      exact shadowed hget htarget hid _ hanswer
    · exact answered hletsIn hstored.row hempty hget htarget hs
  · rw [hrefused] at hcreated
    obtain ⟨a, ha, hstatus⟩ := Option.map_eq_some_iff.mp hcreated
    have herror := status_of_toAnswer? ha
    omega

/-- Somebody signs in, under an identifier that is a word of a path. -/
def wordWritten : Request :=
  ⟨.post, "/api/v1/logs", [("X-API-Key", Tenant.acme.apiKey)], (NewEvent.signIn "export").toJson.compact⟩

def wordAsked : Request := ⟨.get, "/api/v1/logs/export", [("X-API-Key", Tenant.acme.apiKey)], ""⟩

private theorem read_wordWritten : NewEvent.read.ofBytes wordWritten.body.bytes = some (.signIn "export") := by
  have hwords : (NewEvent.signIn "export").toJson.numbersAll Json.Number.isWord = true := by decide
  exact Json.Reader.ofBytes_compact hwords

/-- The event is stored, but who asks for it gets something else. -/
theorem word_not_read_back :
    (served .first wordWritten (ofAcme ⟨false, 100, 10⟩)).1 = some (receiptAnswer 201 ⟨["export"], .ok⟩) ∧
      ∃ e : Event, e.id = "export" ∧
        (served .first wordWritten (ofAcme ⟨false, 100, 10⟩)).2.pipeline.records.rows.get? .acme "export" =
          some e ∧
        (served .first wordAsked (served .first wordWritten (ofAcme ⟨false, 100, 10⟩)).2).1 ≠
          some (.json 200 e.toJson) := by
  have hreachable : Reachable { adminKey := some "sesame" } ⟨false, 100, 10⟩ (ofAcme ⟨false, 100, 10⟩) := .new _
  let key : ApiKey := ⟨Tenant.acme.apiKey, by decide⟩
  have hletsIn : LetsIn (ofAcme ⟨false, 100, 10⟩) key .acme := ⟨hreachable.faithful, rfl, rfl, rfl⟩
  have hsigned : (Write.create (.ofTenant .acme (requestId .first wordWritten)) (.signIn "export")
      Moment.first.now (Moment.first.fresh 1)).effect (ofAcme ⟨false, 100, 10⟩).pipeline.records =
      .ok ⟨⟨EventTable.empty.put (.signIn "export"), true⟩, .index (.signIn "export") .epoch, ["export"]⟩ := by
    rfl
  have hsize : wordWritten.body.bytes.length ≤ maxContent := by
    rw [wordWritten, Text.length_bytes, Json.compact, String.utf8ByteSize_ofList]
    decide +kernel
  have hcreated := created hletsIn rfl (by decide +kernel) (presents_acme rfl) hsize read_wordWritten hsigned
  have hstatus : (served .first wordWritten (ofAcme ⟨false, 100, 10⟩)).1.map Answer.status = some 201 := by
    rw [hcreated]
    rfl
  obtain ⟨t, q, e, ht, -, hread, hrestates, -, -, hrow, hback⟩ :=
    hreachable.written_event_read_back_iff rfl rfl (by decide) rfl (by decide +kernel) hstatus
  obtain rfl : t = .acme := List.mem_singleton.mp (Registry.get?_eq_some.mp ht).1
  rw [read_wordWritten, Option.some_inj] at hread
  subst hread
  have hid : e.id = "export" := hrestates.id "export" rfl (by decide)
  have htarget : wordAsked.target = "/api/v1/logs/" ++ encodeSegment e.id := by
    rw [hid]
    decide +kernel
  refine ⟨hcreated, e, hid, hid ▸ hrow, fun hanswer => ?_⟩
  exact (hback .first wordAsked rfl htarget (presents_acme rfl)).mp hanswer (by simp [hid])

end Gateway

end AuditTrail
