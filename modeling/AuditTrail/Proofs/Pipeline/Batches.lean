import AuditTrail.Proofs.Pipeline.Writes
/-!
# Batches

A batch of requests is recorded as a whole or not at all. When it is, one message about all of its events is
offered to the queue, which may refuse it.
-/

namespace AuditTrail

open Pipeline

/-! ## What a batch has to pass -/

private theorem repeated?_eq_none {events : List Event} {seen : List String} :
    repeated? seen events = none ↔ (events.map Event.id).Nodup ∧ ∀ e ∈ events, e.id ∉ seen := by
  induction events generalizing seen with
  | nil => simp [repeated?]
  | cons e rest ih =>
    by_cases hseen : e.id ∈ seen
    · simp [repeated?, hseen]
    · have hother : (∀ d ∈ rest, d.id ∉ e.id :: seen) ↔
          e.id ∉ rest.map Event.id ∧ ∀ d ∈ rest, d.id ∉ seen := by
        simp only [List.mem_cons, not_or, List.mem_map]
        grind
      rw [repeated?, if_neg (by simpa using hseen), ih, hother, List.map_cons, List.nodup_cons,
        List.forall_mem_cons]
      tauto

private theorem checkDistinct_eq_ok {events : List Event} :
    checkDistinct events = .ok () ↔ (events.map Event.id).Nodup := by
  unfold checkDistinct
  cases h : repeated? [] events with
  | none => simpa using repeated?_eq_none.mp h
  | some e =>
    have hrepeated : ¬ (events.map Event.id).Nodup := by
      intro hnodup
      rw [repeated?_eq_none.mpr ⟨hnodup, by simp⟩] at h
      cases h
    simpa using hrepeated

private theorem checkBatch_eq_ok {size : Nat} : checkBatch size = .ok () ↔ 1 ≤ size ∧ size ≤ maxBatch := by
  unfold checkBatch
  split
  · simp; omega
  · split
    · simp; omega
    · simp; omega

namespace NewEvent

variable {requests : List NewEvent} {tenant : TenantId} {now : Instant} {freshIds : Nat → String}
  {events : List Event}

private theorem restates_of_acceptAll (h : acceptAll requests tenant now freshIds = .ok events) :
    List.Forall₂ (fun r e => e.tenant = tenant ∧ e.Restates r) requests events := by
  have hall := mapM_eq_ok.mp h
  rw [← List.forall₂_eq_eq_eq, List.forall₂_map_left_iff, List.forall₂_map_right_iff] at hall
  have hfirst : List.Forall₂ (fun r e => e.tenant = tenant ∧ e.Restates r)
      (requests.zipIdx.map Prod.fst) events := by
    rw [List.forall₂_map_left_iff]
    apply hall.imp
    intro item e he
    cases haccept : item.1.accept tenant now (freshIds item.2) with
    | error f => simp [haccept] at he
    | ok d =>
      simp only [haccept, Except.ok.injEq] at he
      subst he
      exact ⟨(accept_eq_ok haccept).1, restates_of_accept haccept⟩
  simpa using hfirst

end NewEvent

namespace EventTable

private theorem exists_addAll {events : List Event} {t : EventTable} :
    (∃ u, addAll events t = .ok u) ↔
      (events.map Event.key).Nodup ∧ ∀ e ∈ events, t.get? e.tenant e.id = none := by
  induction events generalizing t with
  | nil => simp [addAll]
  | cons e rest ih =>
    by_cases hthere : t.has e.tenant e.id = true
    · have hfound : t.get? e.tenant e.id ≠ none := by simpa [has, Option.isSome_iff_ne_none] using hthere
      simp [addAll, hthere, hfound]
    · have habsent : t.get? e.tenant e.id = none := by simpa [has] using hthere
      have hput (d : Event) : (t.put e).get? d.tenant d.id = none ↔
          e.key ≠ d.key ∧ t.get? d.tenant d.id = none := by
        rw [get?_put]
        change (if e.key = d.key then some e else _) = none ↔ _
        split <;> simp [*]
      simp [addAll, hthere, ih, habsent, hput]
      grind

end EventTable

/-! ## What a batch does -/

/-- What there is to say of a batch that is recorded: the requests of a tenant and the events that they become,
which are new to a record store. -/
structure Batch (ctx : Context) (requests : List NewEvent) (s : RecordStore) (tenant : TenantId)
    (events : List Event) : Prop where
  caller : ctx.tenant = some tenant
  size : 1 ≤ requests.length ∧ requests.length ≤ maxBatch
  restates : List.Forall₂ (fun r e => e.tenant = tenant ∧ e.Restates r) requests events
  distinct : (events.map Event.id).Nodup
  absent : ∀ e ∈ events, s.rows.get? tenant e.id = none

namespace Write

variable {ctx : Context} {requests : List NewEvent} {now : Instant} {freshIds : Nat → String}
  {s : RecordStore} {x : Written}

private theorem effect_createAll_eq_ok :
    (createAll ctx requests now freshIds).effect s = .ok x ↔
      ∃ tenant events rows, ctx.tenant = some tenant ∧ checkBatch requests.length = .ok () ∧
        NewEvent.acceptAll requests tenant now freshIds = .ok events ∧ checkDistinct events = .ok () ∧
        s.checkWritable = .ok () ∧ EventTable.addAll events s.rows = .ok rows ∧
        x = ⟨{ s with rows }, ⟨.bulkIndex, tenant, events, none, now⟩, events.map Event.id⟩ := by
  simp only [effect, Failure.bind_eq_ok, Context.writeTenant_eq_ok, RecordStore.create_eq_ok]
  constructor
  · rintro ⟨tenant, htenant, _, hsize, events, haccept, _, hdistinct, _,
      ⟨_, -, hwritable, -, rows, hrows, rfl⟩, hx⟩
    cases hx
    exact ⟨tenant, events, rows, htenant, hsize, haccept, hdistinct, hwritable, hrows, rfl⟩
  · rintro ⟨tenant, events, rows, htenant, hsize, haccept, hdistinct, hwritable, hrows, rfl⟩
    exact ⟨tenant, htenant, (), hsize, events, haccept, (), hdistinct, _,
      ⟨tenant, htenant, hwritable, NewEvent.tenant_of_mem_acceptAll haccept, rows, hrows, rfl⟩, rfl⟩

/-- A batch takes effect just when a tenant sends 1 to 1000 requests that are all accepted, under identifiers
that differ and that no row of the tenant has, and the record store can be written. -/
private theorem exists_effect_createAll :
    (∃ x, (createAll ctx requests now freshIds).effect s = .ok x) ↔
      ∃ tenant events, ctx.tenant = some tenant ∧ (1 ≤ requests.length ∧ requests.length ≤ maxBatch) ∧
        NewEvent.acceptAll requests tenant now freshIds = .ok events ∧ (events.map Event.id).Nodup ∧
        (∀ e ∈ events, s.rows.get? tenant e.id = none) ∧ s.checkWritable = .ok () := by
  simp only [effect_createAll_eq_ok, checkBatch_eq_ok, checkDistinct_eq_ok]
  constructor
  · rintro ⟨-, tenant, events, rows, htenant, hsize, haccept, hdistinct, hwritable, hrows, -⟩
    refine ⟨tenant, events, htenant, hsize, haccept, hdistinct, ?_, hwritable⟩
    intro e he
    rw [← NewEvent.tenant_of_mem_acceptAll haccept e he]
    exact (EventTable.addAll_eq_ok hrows).2.1 e he
  · rintro ⟨tenant, events, htenant, hsize, haccept, hdistinct, habsent, hwritable⟩
    have hkeys : (events.map Event.key).Nodup := by
      apply List.Nodup.of_map Prod.snd
      rw [List.map_map]
      exact hdistinct
    have hrows : ∃ rows, EventTable.addAll events s.rows = .ok rows := by
      rw [EventTable.exists_addAll]
      refine ⟨hkeys, ?_⟩
      intro e he
      rw [NewEvent.tenant_of_mem_acceptAll haccept e he]
      exact habsent e he
    obtain ⟨rows, hrows⟩ := hrows
    exact ⟨_, tenant, events, rows, htenant, hsize, haccept, hdistinct, hwritable, hrows, rfl⟩

end Write

namespace Pipeline

variable (now : Instant) (freshIds : Nat → String) (ctx : Context) (requests : List NewEvent) (p : Pipeline)

/-- A batch is refused and leaves everything but the counters as it was, whichever seams are out of order, or its
requests become events in their order, just these are added to the rows, and one message about them, in this
order, is offered to the queue; the answer names them in this order and says whether the queue refused. It goes
through just when a tenant sends 1 to 1000 requests that are all accepted, under identifiers that differ and that
no row of the tenant has, and the record store can be written. -/
theorem createEvents_all_or_none :
    ((∃ f, ∀ outages, ∃ metrics, outcome (createEvents now freshIds ctx requests) { p with outages } =
        (.error f, { p with outages, metrics })) ∨
      ∃ tenant events rows, Batch ctx requests p.records tenant events ∧
        (∀ e, e ∈ rows.events ↔ e ∈ p.records.rows.events ∨ e ∈ events) ∧
        ∀ outages : Outages, ∃ metrics,
          outcome (createEvents now freshIds ctx requests) { p with outages } =
            (.ok ⟨events.map Event.id,
                if (outages.strike .queueSend).1 then .degraded Seam.queueSend.failure.message else .ok⟩,
              { p with
                records := { p.records with rows }
                queue := if (outages.strike .queueSend).1 then p.queue
                  else p.queue.send ⟨.bulkIndex, tenant, events, none, now⟩
                outages := (outages.strike .queueSend).2
                metrics })) ∧
    ((∃ receipt, (outcome (createEvents now freshIds ctx requests) p).1 = .ok receipt) ↔
      ∃ tenant events, ctx.tenant = some tenant ∧ (1 ≤ requests.length ∧ requests.length ≤ maxBatch) ∧
        NewEvent.acceptAll requests tenant now freshIds = .ok events ∧ (events.map Event.id).Nodup ∧
        (∀ e ∈ events, p.records.rows.get? tenant e.id = none) ∧ p.records.checkWritable = .ok ()) := by
  have hrun (outages : Outages) : ∃ metrics,
      outcome (createEvents now freshIds ctx requests) { p with outages } =
        Write.settled { p with outages } metrics ((Write.createAll ctx requests now freshIds).effect p.records) :=
    Write.outcome_createEvents ctx requests now freshIds { p with outages }
  rw [← Write.exists_effect_createAll]
  cases heffect : (Write.createAll ctx requests now freshIds).effect p.records with
  | error f =>
    rw [heffect] at hrun
    obtain ⟨metrics, hanswer⟩ := hrun p.outages
    exact ⟨.inl ⟨f, hrun⟩, by simp [hanswer, Write.settled]⟩
  | ok x =>
    rw [heffect] at hrun
    obtain ⟨tenant, events, rows, htenant, hsize, haccept, hdistinct, -, hrows, rfl⟩ :=
      Write.effect_createAll_eq_ok.mp heffect
    obtain ⟨-, habsent, hmem⟩ := EventTable.addAll_eq_ok hrows
    have hbatch : Batch ctx requests p.records tenant events := by
      refine ⟨htenant, checkBatch_eq_ok.mp hsize, NewEvent.restates_of_acceptAll haccept,
        checkDistinct_eq_ok.mp hdistinct, ?_⟩
      intro e he
      rw [← NewEvent.tenant_of_mem_acceptAll haccept e he]
      exact habsent e he
    obtain ⟨metrics, hanswer⟩ := hrun p.outages
    exact ⟨.inr ⟨tenant, events, rows, hbatch, hmem, hrun⟩, by simp [hanswer, Write.settled]⟩

/-- Two sign-ins go through, first with the queue and then without it. -/
theorem twoSignIns_created :
    let p := Pipeline.new 30000 toString
    let unqueued := { p with outages := .insert .empty .queueSend (.calls 1) }
    let run := outcome (createEvents .epoch toString (.ofTenant .acme "") [.signIn "e1", .signIn "e2"])
    ∃ events, events.map Event.id = ["e1", "e2"] ∧ (run p).1 = .ok ⟨["e1", "e2"], .ok⟩ ∧
      (run p).2.queue = p.queue.send ⟨.bulkIndex, .acme, events, none, .epoch⟩ ∧
      (run unqueued).1 = .ok ⟨["e1", "e2"], .degraded Seam.queueSend.failure.message⟩ ∧
      (run unqueued).2.queue = p.queue ∧ ∀ e, e ∈ (run unqueued).2.records.rows.events ↔ e ∈ events := by
  intro p unqueued run
  obtain ⟨hone, hiff⟩ :=
    createEvents_all_or_none .epoch toString (.ofTenant .acme "") [.signIn "e1", .signIn "e2"] p
  have hgoes : ∃ receipt, (run p).1 = .ok receipt :=
    hiff.mpr ⟨.acme, [.signIn "e1", .signIn "e2"], rfl, by decide, by cbv, by decide, by decide, rfl⟩
  obtain ⟨f, hrefused⟩ | ⟨tenant, events, rows, hbatch, hmem, hrun⟩ := hone
  · obtain ⟨receipt, hreceipt⟩ := hgoes
    obtain ⟨_, hanswer⟩ := hrefused p.outages
    have herror : (run p).1 = .error f := congrArg Prod.fst hanswer
    rw [hreceipt] at herror
    cases herror
  · obtain ⟨_, hqueued⟩ := hrun p.outages
    obtain ⟨_, hunqueued⟩ := hrun unqueued.outages
    have hids : events.map Event.id = ["e1", "e2"] := by
      have hrestates := hbatch.restates
      simp only [List.forall₂_cons_left_iff, List.forall₂_nil_left_iff] at hrestates
      obtain ⟨d, _, ⟨-, hd⟩, ⟨e, _, ⟨-, he⟩, rfl, rfl⟩, rfl⟩ := hrestates
      simp [hd.id "e1" rfl (by decide), he.id "e2" rfl (by decide)]
    obtain rfl : TenantId.acme = tenant := Option.some.inj hbatch.caller
    rw [hids] at hqueued hunqueued
    refine ⟨events, hids, congrArg Prod.fst hqueued, congrArg (·.2.queue) hqueued,
      congrArg Prod.fst hunqueued, congrArg (·.2.queue) hunqueued, ?_⟩
    intro e
    have hrows : (run unqueued).2.records.rows = rows := congrArg (·.2.records.rows) hunqueued
    rw [hrows, hmem]
    simp [p, Pipeline.new, RecordStore.empty, EventTable.empty]

end Pipeline

end AuditTrail
