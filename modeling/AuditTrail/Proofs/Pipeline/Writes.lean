import AuditTrail.Pipeline.Ingestion
import AuditTrail.Proofs.Event.Tables
import AuditTrail.Proofs.Pipeline.Running
/-!
# Writes

A write is a call of the write path with the instant and the fresh identifiers that it is given. What it
does is a function of the record store alone: `Write.effect` says which rows are kept, which message is
published and which identifiers are answered, and `Write.outcome_perform_ok` that the pipeline does just
that.
-/

namespace AuditTrail

open Pipeline

inductive Write where
  | create (ctx : Context) (request : NewEvent) (now : Instant) (freshId : String)
  | createAll (ctx : Context) (requests : List NewEvent) (now : Instant) (freshIds : Nat → String)
  | delete (ctx : Context) (id : String) (now : Instant)

/-- What a write that goes through leaves behind. -/
structure Written where
  records : RecordStore
  message : Message
  ids : List String

namespace Write

def context : Write → Context
  | create ctx _ _ _ => ctx
  | createAll ctx _ _ _ => ctx
  | delete ctx _ _ => ctx

def perform : Write → Action Receipt
  | create ctx request now freshId => createEvent now freshId ctx request
  | createAll ctx requests now freshIds => createEvents now freshIds ctx requests
  | delete ctx id now => deleteEvent now ctx id

/-- What a write does to a record store, and the message about it. -/
def effect (s : RecordStore) : Write → Except Failure Written
  | create ctx request now freshId => do
    let tenant ← ctx.writeTenant
    let e ← request.accept tenant now freshId
    let records ← s.create ctx [e]
    return ⟨records, .index e now, [e.id]⟩
  | createAll ctx requests now freshIds => do
    let tenant ← ctx.writeTenant
    checkBatch requests.length
    let events ← NewEvent.acceptAll requests tenant now freshIds
    checkDistinct events
    let records ← s.create ctx events
    return ⟨records, ⟨.bulkIndex, tenant, events, none, now⟩, events.map Event.id⟩
  | delete ctx id now => do
    let tenant ← ctx.writeTenant
    if s.rows.has tenant id then
      s.checkWritable
      return ⟨{ s with rows := s.rows.erase tenant id }, .delete tenant id now, [id]⟩
    else throw (.notFound ("audit event " ++ id))

/-- The messages that writes publish when they are made one after the other. -/
def published (s : RecordStore) : List Write → List Message
  | [] => []
  | w :: rest =>
    match w.effect s with
    | .ok x => x.message :: published x.records rest
    | .error _ => published s rest

/-- An event that a write asks for: one of its requests, accepted for the tenant of the event. -/
def Asks : Write → Event → Prop
  | create _ request now freshId, e => request.accept e.tenant now freshId = .ok e
  | createAll _ requests now freshIds, e =>
    ∃ r ∈ requests, ∃ i, r.accept e.tenant now (freshIds i) = .ok e
  | delete _ _ _, _ => False

end Write

/-! ## A sign-in -/

def TenantId.acme : TenantId := ⟨"acme", by decide, by decide⟩

def NewEvent.signIn (id : String) : NewEvent where
  id := some id
  tenantId := none
  userId := ""
  sessionId := ""
  ipAddress := ""
  userAgent := ""
  action := "login"
  resourceType := "session"
  resourceId := "s1"
  severity := .info
  message := "signed in"
  beforeState := none
  afterState := none
  metadata := none
  timestamp := .epoch

def Write.signIn (id : String) : Write := .create (.ofTenant .acme "") (.signIn id) .epoch "f1"

def Event.signIn (id : String) : Event where
  id := id
  tenant := .acme
  userId := ""
  sessionId := ""
  ipAddress := ""
  userAgent := ""
  action := "login"
  resourceType := "session"
  resourceId := "s1"
  severity := .info
  message := "signed in"
  beforeState := none
  afterState := none
  metadata := none
  timestamp := .epoch
  createdAt := .epoch
  updatedAt := .epoch

/-! ## Rows -/

theorem Context.writeTenant_eq_ok {ctx : Context} {tenant : TenantId} :
    ctx.writeTenant = .ok tenant ↔ ctx.tenant = some tenant := by
  unfold Context.writeTenant
  cases ctx.tenant <;> simp

theorem Context.requireTenant_eq_ok {ctx : Context} {tenant : TenantId} :
    ctx.requireTenant = .ok tenant ↔ ctx.tenant = some tenant := by
  unfold Context.requireTenant
  cases ctx.tenant <;> simp

namespace RecordStore

theorem checkOwner_eq_ok {tenant : TenantId} {events : List Event} :
    checkOwner tenant events = .ok () ↔ ∀ e ∈ events, e.tenant = tenant := by
  unfold checkOwner
  split
  · rename_i e he
    have hforeign := List.find?_some he
    simp only [reduceCtorEq, false_iff]
    intro h
    simp [h e (List.mem_of_find?_eq_some he)] at hforeign
  · rename_i hnone
    rw [List.find?_eq_none] at hnone
    simpa using hnone

/-- A store takes events of the tenant who writes when it is writable and none of them is there. -/
theorem create_eq_ok {s t : RecordStore} {ctx : Context} {events : List Event} :
    s.create ctx events = .ok t ↔
      ∃ tenant, ctx.tenant = some tenant ∧ s.checkWritable = .ok () ∧ (∀ e ∈ events, e.tenant = tenant) ∧
        ∃ rows, EventTable.addAll events s.rows = .ok rows ∧ t = { s with rows } := by
  simp only [create, Failure.bind_eq_ok, Context.requireTenant_eq_ok]
  constructor
  · rintro ⟨tenant, htenant, _, hwritable, _, howner, h⟩
    split at h
    · rename_i rows hrows
      cases h
      exact ⟨tenant, htenant, hwritable, checkOwner_eq_ok.mp howner, rows, hrows, rfl⟩
    · cases h
  · rintro ⟨tenant, htenant, hwritable, howner, rows, hrows, rfl⟩
    exact ⟨tenant, htenant, (), hwritable, (), checkOwner_eq_ok.mpr howner, by rw [hrows]; rfl⟩

end RecordStore

/-! ## Accepted events -/

/-- An event has the fields of a request, and its time to the microsecond. -/
structure Event.Restates (e : Event) (q : NewEvent) : Prop where
  id : ∀ id, q.id = some id → Text.blank id = false → e.id = id
  userId : e.userId = q.userId
  sessionId : e.sessionId = q.sessionId
  ipAddress : e.ipAddress = q.ipAddress
  userAgent : e.userAgent = q.userAgent
  action : e.action = q.action
  resourceType : e.resourceType = q.resourceType
  resourceId : e.resourceId = q.resourceId
  severity : e.severity = q.severity
  message : e.message = q.message
  beforeState : e.beforeState = q.beforeState
  afterState : e.afterState = q.afterState
  metadata : e.metadata = q.metadata
  timestamp : e.timestamp = q.timestamp.truncate

namespace NewEvent

/-- An accepted event is its request under the tenant and an identifier, with times in microseconds. -/
theorem accept_eq_ok {q : NewEvent} {tenant : TenantId} {now : Instant} {freshId : String} {e : Event}
    (h : q.accept tenant now freshId = .ok e) :
    e.tenant = tenant ∧ e.id = q.eventId freshId ∧ e.Restates q ∧
      e.createdAt = now.truncate ∧ e.updatedAt = now.truncate := by
  unfold accept at h
  split at h
  · cases h
  · split at h
    · cases h
    · cases h
      refine ⟨rfl, rfl, ?_, rfl, rfl⟩
      refine ⟨fun id hid hblank => ?_, rfl, rfl, rfl, rfl, rfl, rfl, rfl, rfl, rfl, rfl, rfl, rfl, rfl⟩
      simp [eventId, hid, hblank]

theorem restates_of_accept {q : NewEvent} {tenant : TenantId} {now : Instant} {freshId : String}
    {e : Event} (h : q.accept tenant now freshId = .ok e) : e.Restates q :=
  (accept_eq_ok h).2.2.1

theorem mapM_eq_ok {α β : Type} {f : α → Except Failure β} {xs : List α} {ys : List β} :
    xs.mapM f = .ok ys ↔ xs.map f = ys.map .ok := by
  induction xs generalizing ys with
  | nil => cases ys <;> simp
  | cons x rest ih =>
    simp only [List.mapM_cons, Failure.bind_eq_ok, List.map_cons]
    constructor
    · rintro ⟨y, hy, zs, hzs, h⟩
      cases h
      rw [hy, ih.mp hzs, List.map_cons]
    · intro h
      cases ys with
      | nil => cases h
      | cons y zs =>
        rw [List.map_cons, List.cons.injEq] at h
        exact ⟨y, h.1, zs, ih.mpr h.2, rfl⟩

section

variable {requests : List NewEvent} {tenant : TenantId} {now : Instant} {freshIds : Nat → String}
  {events : List Event}

theorem ne_nil_of_acceptAll (hsize : checkBatch requests.length = .ok ())
    (h : acceptAll requests tenant now freshIds = .ok events) : events ≠ [] := by
  have hlength : requests.length = events.length := by
    simpa using congrArg List.length (mapM_eq_ok.mp h)
  rintro rfl
  simp [hlength, checkBatch] at hsize

private theorem of_mem_acceptAll (h : acceptAll requests tenant now freshIds = .ok events) {e : Event}
    (he : e ∈ events) : ∃ r ∈ requests, ∃ i, r.accept tenant now (freshIds i) = .ok e := by
  have hmem : .ok e ∈ events.map (Except.ok : Event → Except Failure Event) :=
    List.mem_map_of_mem he
  rw [← mapM_eq_ok.mp h] at hmem
  obtain ⟨⟨r, i⟩, hitem, heq⟩ := List.mem_map.mp hmem
  refine ⟨r, (List.mem_zipIdx_iff_getElem?.mp hitem |> List.mem_of_getElem?), i, ?_⟩
  cases haccept : r.accept tenant now (freshIds i) with
  | ok d => simpa [haccept] using heq
  | error f => simp [haccept] at heq

theorem tenant_of_mem_acceptAll (h : acceptAll requests tenant now freshIds = .ok events) :
    ∀ e ∈ events, e.tenant = tenant := by
  intro e he
  obtain ⟨_, _, _, haccept⟩ := of_mem_acceptAll h he
  exact (accept_eq_ok haccept).1

end

end NewEvent

namespace Pipeline

/-! ## The parts of a write -/

private theorem outcome_validated {α : Type} (accepted : Except Failure α) (p : Pipeline) :
    ∃ metrics, outcome (validated accepted) p = (accepted, { p with metrics }) := by
  cases accepted with
  | ok a => exact ⟨p.metrics, rfl⟩
  | error f => exact ⟨p.metrics.add .eventsFailedValidation 1, rfl⟩

/-- Events are counted when they are stored, and a failure to store them is. -/
theorem outcome_persist (ctx : Context) (events : List Event) (p : Pipeline) :
    outcome (persist ctx events) p =
      match p.records.create ctx events with
      | .ok records => (.ok (), { p with records, metrics := p.metrics.add .eventsPersisted events.length })
      | .error f => (.error f, { p with metrics := p.metrics.add .storeWriteErrors 1 }) := by
  have hcreate := outcome_createRecords ctx events p
  cases hx : p.records.create ctx events with
  | ok records => simp [persist, hcreate, hx]
  | error f => simp [persist, hcreate, hx]

/-- Whether the queue refuses what is sent to it next. -/
def refuses (p : Pipeline) : Bool := (p.outages.strike .queueSend).1

/-- What is said of a message that is offered to the queue. -/
def heard (p : Pipeline) : Outcome := if p.refuses then .degraded Seam.queueSend.failure.message else .ok

/-- The pipeline after a message was offered to its queue. -/
def offer (p : Pipeline) (m : Message) : Pipeline :=
  { p with
    queue := if p.refuses then p.queue else p.queue.send m
    outages := (p.outages.strike .queueSend).2 }

private theorem outcome_sendMessage (m : Message) (p : Pipeline) :
    outcome (sendMessage m) p =
      (if p.refuses then .error Seam.queueSend.failure else .ok (), p.offer m) := by
  cases hrefuses : p.refuses <;>
    · unfold refuses at hrefuses
      simp [sendMessage, pass, struck, offer, refuses, hrefuses]

/-- A message is offered once and counted, whether the queue takes it or not. -/
theorem outcome_offer (m : Message) (p : Pipeline) :
    outcome (publish (.ok m)) p = (.ok p.heard, { p.offer m with
      metrics := p.metrics.add (if p.refuses then .publishDegraded else .messagesPublished) 1 }) := by
  cases hrefuses : p.refuses with
  | true =>
    simp only [publish, degraded, outcome_bind, outcome_tryCatch, outcome_lift, outcome_sendMessage,
      outcome_count, outcome_pure, proceed_ok, proceed_error, heard, hrefuses, if_true]
    rfl
  | false =>
    simp only [publish, outcome_bind, outcome_tryCatch, outcome_lift, outcome_sendMessage, outcome_count,
      proceed_ok, heard, hrefuses, Bool.false_eq_true, if_false]
    rfl

private theorem outcome_offer_after (m : Message) (p : Pipeline) (records : RecordStore) (written : Metrics) :
    ∃ metrics, outcome (publish (.ok m)) { p with records, metrics := written } =
      (.ok p.heard, { p.offer m with records, metrics }) :=
  ⟨_, outcome_offer m { p with records, metrics := written }⟩

private theorem heard_of_up {p : Pipeline} (h : p.outages = .empty) : p.heard = .ok := by
  rw [heard, refuses, h]
  rfl

theorem offer_of_up {p : Pipeline} (h : p.outages = .empty) (m : Message) :
    p.offer m = { p with queue := p.queue.send m } := by
  obtain ⟨records, registry, index, queue, metrics, health, outages, clock⟩ := p
  subst h
  rfl

theorem outcome_publish {p : Pipeline} (h : p.outages = .empty) (m : Message) :
    ∃ metrics, outcome (publish (.ok m)) p =
      (.ok .ok, { p with queue := p.queue.send m, metrics }) := by
  have hoffer := outcome_offer m p
  rw [heard_of_up h, offer_of_up h m] at hoffer
  exact ⟨_, hoffer⟩

end Pipeline

/-- Nothing is wrong with a bulk message about some events of its tenant. -/
theorem Message.bulkIndex_eq_ok {tenant : TenantId} {events : List Event} (now : Instant)
    (hsome : events ≠ []) (htenant : ∀ e ∈ events, e.tenant = tenant) :
    Message.bulkIndex tenant events now = .ok ⟨.bulkIndex, tenant, events, none, now⟩ := by
  have hforeign : events.find? (fun e => decide (e.tenant ≠ tenant)) = none := by
    rw [List.find?_eq_none]
    intro e he
    simp [htenant e he]
  have hempty : events.isEmpty = false := by simpa using hsome
  rw [Message.bulkIndex, Message.check, Message.problem?, Message.shapeProblem?]
  simp only [hempty, hforeign]
  rfl

namespace Write

/-- The answer of a write that creates events and the pipeline after it, its counters aside. -/
def settled (p : Pipeline) (metrics : Metrics) :
    Except Failure Written → Except Failure Receipt × Pipeline
  | .ok x => (.ok ⟨x.ids, p.heard⟩, { p.offer x.message with records := x.records, metrics })
  | .error f => (.error f, { p with metrics })

private theorem outcome_createEvent (ctx : Context) (request : NewEvent) (now : Instant) (freshId : String)
    (p : Pipeline) :
    ∃ metrics, outcome (createEvent now freshId ctx request) p =
      settled p metrics ((create ctx request now freshId).effect p.records) := by
  cases htenant : ctx.writeTenant with
  | error f => exact ⟨p.metrics, by simp [createEvent, effect, htenant, settled]⟩
  | ok tenant =>
    obtain ⟨checked, hvalidated⟩ := outcome_validated (request.accept tenant now freshId)
      { p with metrics := p.metrics.add .eventsReceived 1 }
    cases haccept : request.accept tenant now freshId with
    | error f =>
      rw [haccept] at hvalidated
      exact ⟨checked, by simp [createEvent, effect, htenant, haccept, hvalidated, settled]⟩
    | ok e =>
      rw [haccept] at hvalidated
      have hpersist := outcome_persist ctx [e] { p with metrics := checked }
      cases hcreate : p.records.create ctx [e] with
      | error f =>
        simp only [hcreate] at hpersist
        exact ⟨checked.add .storeWriteErrors 1, by
          simp [createEvent, effect, htenant, haccept, hvalidated, hpersist, hcreate, settled]⟩
      | ok records =>
        simp only [hcreate] at hpersist
        obtain ⟨sent, hpublish⟩ := outcome_offer_after (.index e now) p records
          (checked.add .eventsPersisted 1)
        exact ⟨sent, by
          simp [createEvent, effect, htenant, haccept, hvalidated, hpersist, hcreate, hpublish, settled]⟩

theorem outcome_createEvents (ctx : Context) (requests : List NewEvent) (now : Instant)
    (freshIds : Nat → String) (p : Pipeline) :
    ∃ metrics, outcome (createEvents now freshIds ctx requests) p =
      settled p metrics ((createAll ctx requests now freshIds).effect p.records) := by
  cases htenant : ctx.writeTenant with
  | error f => exact ⟨p.metrics, by simp [createEvents, effect, htenant, settled]⟩
  | ok tenant =>
    cases hsize : checkBatch requests.length with
    | error f => exact ⟨p.metrics, by simp [createEvents, effect, htenant, hsize, settled]⟩
    | ok _ =>
      obtain ⟨accepted, haccepted⟩ := outcome_validated (NewEvent.acceptAll requests tenant now freshIds)
        { p with metrics := p.metrics.add .eventsReceived requests.length }
      cases haccept : NewEvent.acceptAll requests tenant now freshIds with
      | error f =>
        rw [haccept] at haccepted
        exact ⟨accepted, by simp [createEvents, effect, htenant, hsize, haccept, haccepted, settled]⟩
      | ok events =>
        rw [haccept] at haccepted
        obtain ⟨checked, hchecked⟩ := outcome_validated (checkDistinct events)
          { p with metrics := accepted }
        cases hdistinct : checkDistinct events with
        | error f =>
          rw [hdistinct] at hchecked
          exact ⟨checked, by
            simp [createEvents, effect, htenant, hsize, haccept, haccepted, hdistinct, hchecked, settled]⟩
        | ok _ =>
          rw [hdistinct] at hchecked
          have hpersist := outcome_persist ctx events { p with metrics := checked }
          cases hcreate : p.records.create ctx events with
          | error f =>
            simp only [hcreate] at hpersist
            exact ⟨checked.add .storeWriteErrors 1, by
              simp [createEvents, effect, htenant, hsize, haccept, haccepted, hdistinct, hchecked,
                hpersist, hcreate, settled]⟩
          | ok records =>
            simp only [hcreate] at hpersist
            have hsome := NewEvent.ne_nil_of_acceptAll hsize haccept
            have hbulk := Message.bulkIndex_eq_ok now hsome (NewEvent.tenant_of_mem_acceptAll haccept)
            obtain ⟨sent, hpublish⟩ := outcome_offer_after ⟨.bulkIndex, tenant, events, none, now⟩ p records
              (checked.add .eventsPersisted events.length)
            exact ⟨sent, by
              simp [createEvents, effect, htenant, hsize, haccept, haccepted, hdistinct, hchecked,
                hpersist, hcreate, hbulk, hpublish, settled]⟩

section

variable {p : Pipeline} (h : p.outages = .empty)

include h

private theorem outcome_delete (ctx : Context) (id : String) (now : Instant) :
    ∃ metrics, outcome (deleteEvent now ctx id) p =
      settled p metrics ((delete ctx id now).effect p.records) := by
  obtain ⟨tenant, principal, requestId⟩ := ctx
  cases tenant with
  | none => exact ⟨p.metrics, by simp [deleteEvent, effect, Context.writeTenant, settled]⟩
  | some tenant =>
    have hget := outcome_getRecord h ⟨some tenant, principal, requestId⟩ id
    have hdelete := outcome_deleteRecord h ⟨some tenant, principal, requestId⟩ id
    simp only [RecordStore.get, RecordStore.delete, Context.requireTenant, Option.elim_some,
      Failure.ok_bind, Failure.pure_eq] at hget hdelete
    cases hfound : p.records.rows.get? tenant id with
    | none =>
      exact ⟨p.metrics, by
        simp [deleteEvent, effect, Context.writeTenant, EventTable.has, hget, hfound, settled]⟩
    | some e =>
      cases hwritable : p.records.checkWritable with
      | error f =>
        simp only [hwritable, Failure.error_bind] at hdelete
        exact ⟨p.metrics, by
          simp [deleteEvent, effect, Context.writeTenant, EventTable.has, hget, hfound, hdelete, hwritable,
            settled]⟩
      | ok _ =>
        simp only [hwritable, Failure.ok_bind] at hdelete
        obtain ⟨sent, hpublish⟩ := outcome_publish
          (p := { p with records := { p.records with rows := p.records.rows.erase tenant id } }) h
          (.delete tenant id now)
        exact ⟨sent, by
          simp [deleteEvent, effect, Context.writeTenant, EventTable.has, hget, hfound, hdelete, hwritable,
            hpublish, settled, heard_of_up h, offer_of_up h]⟩

private theorem outcome_perform (w : Write) :
    ∃ metrics, outcome w.perform p = settled p metrics (w.effect p.records) := by
  cases w with
  | create ctx request now freshId => exact outcome_createEvent ctx request now freshId p
  | createAll ctx requests now freshIds => exact outcome_createEvents ctx requests now freshIds p
  | delete ctx id now => exact outcome_delete h ctx id now

/-- A write that goes through changes the record store and publishes its message. -/
theorem outcome_perform_ok {w : Write} {x : Written} (hx : w.effect p.records = .ok x) :
    ∃ metrics, outcome w.perform p = (.ok ⟨x.ids, .ok⟩,
      { p with records := x.records, queue := p.queue.send x.message, metrics }) := by
  obtain ⟨metrics, hw⟩ := outcome_perform h w
  rw [hx, settled, heard_of_up h, offer_of_up h] at hw
  exact ⟨metrics, hw⟩

theorem outcome_perform_error {w : Write} {f : Failure} (hx : w.effect p.records = .error f) :
    ∃ metrics, outcome w.perform p = (.error f, { p with metrics }) := by
  obtain ⟨metrics, hw⟩ := outcome_perform h w
  rw [hx] at hw
  exact ⟨metrics, hw⟩

end

/-- What it takes for a write to go through, and what it does: it adds the events that it asks for, or takes
out an event that is there. -/
theorem effect_cases {w : Write} {s : RecordStore} {x : Written} (h : w.effect s = .ok x) :
    w.context.tenant = some x.message.tenant ∧ x.records.writable = s.writable ∧
      ((x.message.kind ≠ .delete ∧ x.message.check = .ok x.message ∧
          (∀ e ∈ x.message.events, e.tenant = x.message.tenant ∧ w.Asks e) ∧
          EventTable.addAll x.message.events s.rows = .ok x.records.rows) ∨
        ∃ ctx id now, w = .delete ctx id now ∧ x.message = .delete x.message.tenant id now ∧
          (s.rows.has x.message.tenant id = true) ∧
          x.records.rows = s.rows.erase x.message.tenant id) := by
  cases w with
  | create ctx request now freshId =>
    simp only [effect, Failure.bind_eq_ok] at h
    obtain ⟨tenant, htenant, e, haccept, records, hcreate, h⟩ := h
    cases h
    have hevent := (NewEvent.accept_eq_ok haccept).1
    subst hevent
    obtain ⟨-, -, -, -, rows, hrows, rfl⟩ := RecordStore.create_eq_ok.mp hcreate
    refine ⟨Context.writeTenant_eq_ok.mp htenant, rfl, .inl ⟨by simp [Message.index], ?_, ?_, hrows⟩⟩
    · simp [Message.index, Message.check, Message.problem?, Message.shapeProblem?]
    · simpa [Message.index, Asks] using haccept
  | createAll ctx requests now freshIds =>
    simp only [effect, Failure.bind_eq_ok] at h
    obtain ⟨tenant, htenant, _, hsize, events, haccept, _, -, records, hcreate, h⟩ := h
    cases h
    obtain ⟨-, -, -, -, rows, hrows, rfl⟩ := RecordStore.create_eq_ok.mp hcreate
    have hevents := NewEvent.tenant_of_mem_acceptAll haccept
    refine ⟨Context.writeTenant_eq_ok.mp htenant, rfl, .inl ⟨by simp, ?_, ?_, hrows⟩⟩
    · exact Message.bulkIndex_eq_ok now (NewEvent.ne_nil_of_acceptAll hsize haccept) hevents
    · intro e he
      have hevent := hevents e he
      subst hevent
      exact ⟨rfl, NewEvent.of_mem_acceptAll haccept he⟩
  | delete ctx id now =>
    simp only [effect, Failure.bind_eq_ok] at h
    obtain ⟨tenant, htenant, h⟩ := h
    split at h
    · rename_i hfound
      obtain ⟨-, -, h⟩ := Failure.bind_eq_ok.mp h
      cases h
      exact ⟨Context.writeTenant_eq_ok.mp htenant, rfl, .inr ⟨ctx, id, now, rfl, rfl, hfound, rfl⟩⟩
    · cases h

/-- The rows after a write are those before it after what its message asks for. -/
theorem effect_rows {w : Write} {s : RecordStore} {x : Written} (h : w.effect s = .ok x) :
    x.records.rows = s.rows.absorb x.message := by
  obtain ⟨-, -, ⟨hkind, -, -, hadd⟩ | ⟨_, id, now, -, hmessage, -, herase⟩⟩ := effect_cases h
  · rw [EventTable.absorb_of_ne_delete hkind]
    exact (EventTable.addAll_eq_ok hadd).1
  · rw [hmessage, herase]
    rfl

end Write

end AuditTrail
