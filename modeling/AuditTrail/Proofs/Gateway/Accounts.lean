import AuditTrail.Proofs.Deployment.Basic
import AuditTrail.Proofs.Gateway.Effects
import AuditTrail.Proofs.Worker.Accounts
import Mathlib.Tactic.LinearCombination
/-!
# The accounts of a service

A gateway in service serves requests, while old events are purged, workers handle messages and others receive
them without an end, leases end and time passes, one thing after the other. From empty backends the counters
account for the data after any such course: `Gateway.counters_account`.
-/

namespace AuditTrail

namespace Gateway

open Http Pipeline

/-! ## Requests -/

section

variable {R : Pipeline → Pipeline → Prop}

/-- The pipelines behind two gateways are related. -/
def Behind (R : Pipeline → Pipeline → Prop) (g h : Gateway) : Prop := R g.pipeline h.pipeline

instance [IsPreorder Pipeline R] : IsPreorder Gateway (Behind R) where
  refl g := refl g.pipeline
  trans _ _ _ h k := Trans.trans (r := R) (s := R) h k

private theorem behind_withPipeline {α : Type} {a : Action α} (ha : Leaves R a) :
    Leaves (Behind R) (withPipeline a) := by
  intro g
  apply (ends_withPipeline (ha g.pipeline)).mono
  · rintro _ _ ⟨p, rfl, hp⟩
    exact hp
  · rintro _ _ ⟨p, rfl, hp⟩
    exact hp

private theorem behind_perform {α : Type} {a : Action α} (ha : Leaves R a) : Leaves (Behind R) (perform a) :=
  (behind_withPipeline ha).adapt _

variable [Pipeline.Blind R]

private theorem behind_ownerOf (key : ApiKey) (elapsed : Nat) : Leaves (Behind R) (ownerOf key elapsed) := by
  unfold ownerOf
  apply Leaves.get.bind
  intro g
  split
  · exact .pure _
  · apply (behind_withPipeline (reads_findTenant key.text R)).bind
    intro found
    cases found with
    | none => exact .throw _
    | some t =>
      have hsame (g : Gateway) (known : Table String (Tenant × Nat)) : Behind R g { g with known } :=
        refl g.pipeline
      exact (Leaves.modify fun g => hsame g _).bind fun _ => .pure t

private theorem behind_takeToken (tenant : TenantId) (elapsed : Nat) :
    Leaves (Behind R) (takeToken tenant elapsed) := by
  intro g
  unfold takeToken
  refine (Ends.got g).bind ?_ fun _ _ h => h.elim
  rintro _ _ ⟨rfl, rfl⟩
  generalize g.limiter.check tenant.name elapsed = result
  obtain ⟨verdict, limiter⟩ := result
  have hsame : Behind R g { g with limiter } := refl g.pipeline
  refine Ends.bind (Ends.set hsame : Ends _ g (fun _ h => Behind R g h) fun _ h => Behind R g h) ?_
    fun _ _ h => h
  intro _ h hh
  cases verdict with
  | ok _ => exact .pure hh
  | error seconds =>
    have hcounted : Leaves (Behind R) (perform (Pipeline.count .rateLimitedRequests 1)) :=
      behind_perform (reads_count (by decide) 1 R)
    refine (hcounted h).bind (fun _ _ hk => .throw ?_) fun _ _ hk => ?_
    · exact Trans.trans hh hk
    · exact Trans.trans hh hk

instance : Blind (Behind R) where
  perform ha := behind_perform (ha R)
  authenticate m _ :=
    (keeps_accept _).bind fun key => ((behind_ownerOf key m.elapsed).adapt _).bind fun t =>
      (behind_takeToken t.id m.elapsed).bind fun _ => .pure _

/-! Whatever else requests do is done by an action of the pipeline. -/

private theorem behind_own {α β : Type} {read : Serving α} {act : Context → α → Action β} {answer : α → β → Http.Answer}
    (hread : Leaves (Behind R) read) (hact : ∀ ctx x, Leaves R (act ctx x)) (m : Moment) (r : Request) :
    Leaves (Behind R) (do
      let ctx ← authenticate m r
      let x ← read
      return answer x (← perform (act ctx x))) :=
  (Blind.authenticate m r).bind fun ctx => hread.bind fun x =>
    (behind_perform (hact ctx x)).bind fun _ => .pure _

private theorem behind_forget (key : String) : Leaves (Behind R) (forget key) :=
  .modify fun g => (refl g.pipeline : R _ _)

end

/-! ## Counted requests -/

private theorem accounts_postTenant (m : Moment) (r : Request) : Leaves (Behind (Accounts 0)) (postTenant m r) := by
  apply (keeps_authorize r).bind
  intro _
  apply (keeps_readContent NewTenant.read r).bind
  intro request
  exact (behind_perform (accounts_registerTenant _ _ _ request)).bind fun _ => .pure _

private theorem accounts_putTenant (m : Moment) (r : Request) (id : String) :
    Leaves (Behind (Accounts 0)) (putTenant m r id) := by
  apply (keeps_authorize r).bind
  intro _
  apply (keeps_readSegment id).bind
  intro segment
  apply (keeps_readContent TenantUpdate.read r).bind
  intro request
  apply (keeps_accept (TenantId.parse segment)).bind
  intro tenant
  apply (behind_perform (accounts_renameTenant _ tenant request)).bind
  intro t
  exact (behind_forget t.apiKey).bind fun _ => .pure _

private theorem accounts_deleteTenantAnswer (r : Request) (id : String) :
    Leaves (Behind (Accounts 0)) (deleteTenantAnswer r id) := by
  apply (keeps_authorize r).bind
  intro _
  apply (keeps_readTenantId id).bind
  intro tenant
  apply (behind_perform (reads_requireTenant tenant _)).bind
  intro t
  apply (behind_perform (accounts_removeTenant tenant)).bind
  intro outcome
  exact (behind_forget t.apiKey).bind fun _ => .pure _

private theorem accounts_deleteTenantEvent (m : Moment) (r : Request) (tenant id : String) (g : Gateway) :
    Ends (deleteTenantEvent m r tenant id) g (fun a h => a.status = 200 ∧ Behind (Accounts 1) g h)
      fun _ h => Behind (Accounts 0) g h := by
  let S := Behind (Accounts 0)
  refine (keeps_authorize (S := S) r g).bind (fun _ h hh => ?_) fun _ _ hh => hh
  refine (keeps_readSegment (S := S) tenant h).bind (fun tenant i hi => ?_) fun _ _ hi => Trans.trans hh hi
  have hi : S g i := Trans.trans hh hi
  refine (keeps_readSegment (S := S) id i).bind (fun id j hj => ?_) fun _ _ hj => Trans.trans hi hj
  have hj : S g j := Trans.trans hi hj
  refine (keeps_accept (S := S) (TenantId.parse tenant) j).bind (fun tenant k hk => ?_)
    fun _ _ hk => Trans.trans hj hk
  have hk : S g k := Trans.trans hj hk
  have hrequire : Leaves S (perform (requireTenant tenant)) := behind_perform (reads_requireTenant tenant _)
  refine (hrequire k).bind (fun _ l hl => ?_) fun _ _ hl => Trans.trans hk hl
  have hl : S g l := Trans.trans hk hl
  refine (ends_performed (accounts_deleteEvent m.now (.system tenant (requestId m r)) id l.pipeline)).bind ?_ ?_
  · rintro receipt _ ⟨p, rfl, hp⟩
    exact .pure ⟨rfl, hl.trans hp⟩
  · rintro _ _ ⟨p, rfl, hp⟩
    exact hl.trans hp

private theorem accounts_serveMethod (m : Moment) (r : Request) {route : Route}
    (hroute : ∀ tenant id, route ≠ .tenantEvent tenant id) (method : Method) :
    Leaves (Behind (Accounts 0)) (serveMethod m r route method) := by
  cases route with
  | events =>
    cases method with
    | post => exact behind_own (keeps_readContent _ r) (fun ctx q => accounts_createEvent _ _ ctx q) m r
    | _ => exact keeps_getEvents m r
  | eventBatch => exact behind_own (keeps_readContent _ r) (fun ctx qs => accounts_createEvents _ _ ctx qs) m r
  | eventExport => exact keeps_getExport m r
  | eventStats => exact keeps_getStats m r
  | eventCleanup => exact behind_own (keeps_readPolicy r) (fun ctx policy => accounts_purge _ ctx policy) m r
  | event id => exact keeps_getOneEvent m r id
  | tenants =>
    cases method with
    | post => exact accounts_postTenant m r
    | _ => exact keeps_getTenants r
  | tenant id =>
    cases method with
    | put => exact accounts_putTenant m r id
    | delete => exact accounts_deleteTenantAnswer r id
    | _ => exact keeps_getOneTenant r id
  | tenantEvent tenant id => exact absurd rfl (hroute tenant id)
  | health => exact keeps_getHealth
  | readiness => exact keeps_getReadiness
  | liveness => exact .pure _
  | metrics => exact keeps_getMetrics

/-- Whether a request was for the deletion of an event, and was answered that this was done. -/
def deletesEvent (r : Request) (answer : Option Http.Answer) : Bool :=
  match r.method, Route.ofSegments? r.segments with
  | .delete, some (.tenantEvent _ _) => answer.any fun a => a.status = 200
  | _, _ => false

private theorem accounts_served (m : Moment) (r : Request) (g : Gateway) :
    Accounts (if deletesEvent r (served m r g).1 then 1 else 0) g.pipeline (served m r g).2.pipeline := by
  by_cases hdelete : ∃ tenant id,
      r.method = .delete ∧ Route.ofSegments? r.segments = some (.tenantEvent tenant id)
  · obtain ⟨tenant, id, hmethod, hroute⟩ := hdelete
    have hends := accounts_deleteTenantEvent m r tenant id g
    have hserve : serveRoute m r (.tenantEvent tenant id) = deleteTenantEvent m r tenant id :=
      serveRoute_of_mem (by simp [Route.methods, hmethod])
    rw [← hserve] at hends
    rcases served_of_ends (by simp [hmethod]) hroute hends with ⟨a, ha, hstatus, hdone⟩ | ⟨refusal, ha, hrefused⟩
    · have hdeletes : deletesEvent r (served m r g).1 = true := by
        simp [deletesEvent, hmethod, hroute, ha, hstatus]
      rw [hdeletes]
      exact hdone
    · have hdeletes : deletesEvent r (served m r g).1 = false := by
        cases hanswer : refusal.toAnswer? with
        | none => simp [deletesEvent, hmethod, hroute, ha, hanswer]
        | some a =>
          have hstatus : a.status ≠ 200 := by
            have herror := status_of_toAnswer? hanswer
            omega
          simp [deletesEvent, hmethod, hroute, ha, hanswer, hstatus]
      rw [hdeletes]
      exact hrefused
  · have hdeletes : deletesEvent r (served m r g).1 = false := by
      unfold deletesEvent
      split
      · rename_i hmethod hroute
        exact absurd ⟨_, _, hmethod, hroute⟩ hdelete
      · rfl
    rw [hdeletes]
    apply leaves_served (S := Behind (Accounts 0))
    intro route hroute hmethod
    apply accounts_serveMethod
    rintro tenant id rfl
    exact hdelete ⟨tenant, id, List.mem_singleton.mp hmethod, hroute⟩

/-! ## Courses -/

inductive Task where
  | serve (m : Moment) (r : Request)
  /-- Old events of all tenants are purged. -/
  | retain (now : Instant) (policy : RetentionPolicy)
  /-- A worker receives messages and handles them. -/
  | poll (w : WorkerSettings)
  /-- Somebody receives messages and does nothing about them. -/
  | receive (max wait : Nat)
  | releaseAll
  | pass (millis : Nat)

/-- The gateway after something was done with the pipeline behind it. -/
def afterAction {α : Type} (g : Gateway) (a : Action α) : Gateway :=
  { g with pipeline := (outcome a g.pipeline).2 }

def after (g : Gateway) : Task → Gateway
  | .serve m r => (served m r g).2
  | .retain now policy => g.afterAction (runRetention now policy)
  | .poll w => g.afterAction (poll w)
  | .receive max wait => g.afterAction (receiveMessages max wait)
  | .releaseAll => { g with pipeline := { g.pipeline with queue := g.pipeline.queue.releaseAll } }
  | .pass millis => { g with pipeline := { g.pipeline with clock := g.pipeline.clock + millis } }

def deletions (g : Gateway) : Task → Nat
  | .serve m r => if deletesEvent r (served m r g).1 then 1 else 0
  | _ => 0

def afterAll (g : Gateway) (tasks : List Task) : Gateway := tasks.foldl after g

/-- The events that tasks delete, one after the other. -/
def allDeletions (g : Gateway) : List Task → Nat
  | [] => 0
  | task :: rest => g.deletions task + (g.after task).allDeletions rest

private theorem accounts_after (g : Gateway) (task : Task) :
    Accounts (g.deletions task) g.pipeline (g.after task).pipeline := by
  cases task with
  | serve m r => exact accounts_served m r g
  | retain now policy => exact after_of_ends (accounts_runRetention now policy g.pipeline)
  | poll w => exact fun hp => balanced_poll w hp
  | receive max wait => exact after_of_ends (accounts_receiveMessages max wait g.pipeline)
  | releaseAll =>
    intro hp
    constructor
    · exact ⟨hp.metrics, hp.queue.releaseAll, hp.up⟩
    · simp [eventBalance, after, deletions]
    · simp [messageBalance, after, Queue.depth_releaseAll]
  | pass millis => exact fun hp => ⟨⟨hp.metrics, hp.queue, hp.up⟩, by simp [eventBalance, after, deletions], rfl⟩

private theorem accounts_afterAll (g : Gateway) (tasks : List Task) :
    Accounts (g.allDeletions tasks) g.pipeline (g.afterAll tasks).pipeline := by
  induction tasks generalizing g with
  | nil => exact (refl g.pipeline : Accounts 0 _ _)
  | cons task rest ih => exact (accounts_after g task).trans (ih (g.after task))

/-- The counters account for the data after any course of tasks that starts with empty backends. The events that
were stored are the rows of all tenants, those that were deleted and those that were purged; the messages that
were published are those on the queue, those that were acknowledged and those that were discarded. The counters
say just that, until there is more than a counter of 64 bits can say. -/
theorem counters_account (auth : AuthSettings) (limit : RateLimit) (visibility : Nat) {tokens : Nat → String}
    (htokens : Function.Injective tokens) {start : Gateway}
    (hstart : start = .new (.new visibility tokens) auth limit) (tasks : List Task) :
    let p := (start.afterAll tasks).pipeline
    let events := p.records.rows.events.length + start.allDeletions tasks + p.metrics.get .retentionPurged
    let messages := p.queue.depth + p.metrics.get .messagesAcked + p.metrics.get .messagesDiscarded
    (p.metrics.get .eventsPersisted = wrapWord events ∧
      (p.metrics.get .eventsPersisted = events ↔ events < wordBound 64)) ∧
    p.metrics.get .messagesPublished = wrapWord messages ∧
      (p.metrics.get .messagesPublished = messages ↔ messages < wordBound 64) := by
  intro p events messages
  have hnew : start.pipeline = .new visibility tokens := by rw [hstart, new]
  have hsound : start.pipeline.Sound := by
    rw [hnew]
    exact ⟨Metrics.whole_zero, Queue.orderly_new visibility htokens, rfl⟩
  have hend := accounts_afterAll start tasks hsound
  have hevents : p.metrics.tally .eventsPersisted = events := by
    have hbalance : p.eventBalance = 0 + start.allDeletions tasks := by
      rw [hend.events, eventBalance, hnew]
      simp [Pipeline.new, Metrics.tally_zero, RecordStore.empty, EventTable.empty]
    simp only [eventBalance, events, Metrics.tally, Nat.cast_add] at hbalance ⊢
    linear_combination hbalance
  have hmessages : p.metrics.tally .messagesPublished = messages := by
    have hbalance : p.messageBalance = 0 := by
      rw [hend.messages, messageBalance, hnew]
      simp [Pipeline.new, Metrics.tally_zero, Queue.new, Queue.depth]
    simp only [messageBalance, messages, Metrics.tally, Nat.cast_add] at hbalance ⊢
    linear_combination hbalance
  have hpersisted := hend.sound.metrics.get_eq_wrapWord hevents
  have hpublished := hend.sound.metrics.get_eq_wrapWord hmessages
  refine ⟨⟨hpersisted, ?_⟩, hpublished, ?_⟩
  · rw [hpersisted, wrapWord_eq_self]
  · rw [hpublished, wrapWord_eq_self]

/-! ## A day -/

/-- A moment at which the next key is that of a known tenant. -/
def opening : Moment := ⟨.epoch, 0, fun _ => "0123456789abcdef0123456789abcdef"⟩

def registration : Request :=
  ⟨.post, "/api/v1/admin/tenants", [("X-Admin-Key", "sesame")],
    (Json.object [("id", .text "acme"), ("name", .text "Acme")]).compact⟩

def submission (id : String) : Request :=
  ⟨.post, "/api/v1/logs", [("X-API-Key", Tenant.acme.apiKey)],
    (Json.object [("id", .text id), ("action", .text "login"), ("resource_type", .text "session"),
      ("resource_id", .text "s1"), ("message", .text "signed in"),
      ("timestamp", .text "1970-01-01T00:00:00Z")]).compact⟩

def eventDeletion : Request :=
  ⟨.delete, "/api/v1/admin/tenants/acme/logs/e2", [("X-Admin-Key", "sesame")], ""⟩

/-- A tenant is registered and two of its users sign in. While the messages about that are leased, one of the
events is deleted, and the message about this is handled; two days later the other event is purged. -/
def day : List Task :=
  [.serve opening registration, .serve opening (submission "e1"), .serve opening (submission "e2"),
    .receive 10 0, .serve opening eventDeletion, .poll {}, .pass 40000,
    .retain ⟨172800, 0, by decide, Instant.epoch.nanos_lt, by decide⟩ ⟨1⟩]

def opened : Gateway := .new (.new 30000 Deployment.unaryToken) { adminKey := some "sesame" } .standard

theorem day_accounted :
    let p := (opened.afterAll day).pipeline
    p.records.rows.events.length = 0 ∧ opened.allDeletions day = 1 ∧ p.metrics.get .retentionPurged = 1 ∧
      p.metrics.get .eventsPersisted = 2 ∧
    p.queue.depth = 2 ∧ p.metrics.get .messagesAcked = 1 ∧ p.metrics.get .messagesDiscarded = 0 ∧
      p.metrics.get .messagesPublished = 3 := by
  have hdata : (opened.afterAll day).pipeline.records.rows.events.length = 0 ∧ opened.allDeletions day = 1 ∧
      (opened.afterAll day).pipeline.metrics.get .retentionPurged = 1 ∧
      (opened.afterAll day).pipeline.queue.depth = 2 ∧
      (opened.afterAll day).pipeline.metrics.get .messagesAcked = 1 ∧
      (opened.afterAll day).pipeline.metrics.get .messagesDiscarded = 0 := by decide +kernel
  have haccount := counters_account _ _ _ Deployment.unaryToken_injective (rfl : opened = _) day
  generalize (opened.afterAll day).pipeline = p at hdata haccount ⊢
  obtain ⟨hrows, hdeletions, hpurged, hdepth, hacked, hdiscarded⟩ := hdata
  obtain ⟨⟨hpersisted, -⟩, hpublished, -⟩ := haccount
  refine ⟨hrows, hdeletions, hpurged, ?_, hdepth, hacked, hdiscarded, ?_⟩
  · rw [hpersisted, hrows, hdeletions, hpurged]
    rfl
  · rw [hpublished, hdepth, hacked, hdiscarded]
    rfl

end Gateway

end AuditTrail
