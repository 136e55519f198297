import AuditTrail.Proofs.Event.Tenants
import AuditTrail.Proofs.Pipeline.Endings
import AuditTrail.Proofs.Pipeline.Writes
import AuditTrail.Proofs.Store.Registry
/-!
# What changes the stores

Writes and purges change the rows of one tenant and nothing of another; the management of tenants changes
neither rows nor queue. Whichever seams are out of order, an action that is refused has changed nothing.
-/

namespace AuditTrail

namespace Pipeline

variable {p q r : Pipeline}

/-- A message was published, or the failure to do so was noted. -/
structure Published (m : Message) (p q : Pipeline) : Prop where
  records : q.records = p.records
  registry : q.registry = p.registry
  index : q.index = p.index
  queue : q.queue = p.queue ∨ q.queue = p.queue.send m
  clock : q.clock = p.clock
  outages : p.outages = .empty → q.outages = .empty

/-- Only what there is of one tenant has changed: its rows, and perhaps a message about it is new on the
queue. -/
structure ChangesEvents (tenant : TenantId) (p q : Pipeline) : Prop where
  rows : ∀ other, other ≠ tenant → q.records.rows.ofTenant other = p.records.rows.ofTenant other
  registry : q.registry = p.registry
  index : q.index = p.index
  queue : q.queue = p.queue ∨ ∃ m : Message, m.tenant = tenant ∧ q.queue = p.queue.send m
  clock : q.clock = p.clock
  outages : p.outages = .empty → q.outages = .empty

/-- Only the registry and the index have changed. -/
structure ManagesTenants (p q : Pipeline) : Prop where
  records : q.records = p.records
  queue : q.queue = p.queue
  clock : q.clock = p.clock
  outages : p.outages = .empty → q.outages = .empty

private theorem Published.of_same {m : Message} (h : SameStores p q) : Published m p q :=
  ⟨h.records, h.registry, h.index, .inl h.queue, h.clock, h.outages⟩

private theorem Published.trans_same {m : Message} (h : Published m p q) (k : SameStores q r) :
    Published m p r where
  records := k.records.trans h.records
  registry := k.registry.trans h.registry
  index := k.index.trans h.index
  queue := by rw [k.queue]; exact h.queue
  clock := k.clock.trans h.clock
  outages hp := k.outages (h.outages hp)

theorem SameStores.published {m : Message} (h : SameStores p q) (k : Published m q r) : Published m p r where
  records := k.records.trans h.records
  registry := k.registry.trans h.registry
  index := k.index.trans h.index
  queue := by rw [← h.queue]; exact k.queue
  clock := k.clock.trans h.clock
  outages hp := k.outages (h.outages hp)

private theorem SameStores.with_records (h : SameStores p q) (records : RecordStore) :
    SameStores { p with records } { q with records } :=
  ⟨rfl, h.registry, h.index, h.queue, h.clock, h.outages⟩

/-! ## The parts of a write -/

private theorem ends_validated {α : Type} (accepted : Except Failure α) (p : Pipeline) :
    Ends (validated accepted) p (fun a q => accepted = .ok a ∧ SameStores p q) fun _ q => SameStores p q := by
  cases accepted with
  | ok a => exact .pure ⟨rfl, refl p⟩
  | error f => exact (reads_count (by decide) _ SameStores p).bind (fun _ _ hq => .throw hq) fun _ _ hq => hq

private theorem ends_persist (ctx : Context) (events : List Event) (p : Pipeline) :
    Ends (persist ctx events) p
      (fun _ q => ∃ records, p.records.create ctx events = .ok records ∧ SameStores { p with records } q)
      fun _ q => SameStores p q := by
  have hrun := outcome_persist ctx events p
  cases hcreate : p.records.create ctx events with
  | ok records =>
    rw [hcreate] at hrun
    exact ends_of_ok hrun ⟨records, rfl, rfl, rfl, rfl, rfl, rfl, id⟩
  | error f =>
    rw [hcreate] at hrun
    exact ends_of_error hrun ⟨rfl, rfl, rfl, rfl, rfl, id⟩

private theorem ends_sendMessage (m : Message) (p : Pipeline) :
    Ends (sendMessage m) p (fun _ q => Published m p q) fun _ q => SameStores p q := by
  refine (reads_pass .queueSend SameStores p).bind (fun _ q hq => .modify ?_) fun _ _ hq => hq
  exact ⟨hq.records, hq.registry, hq.index, .inr (by rw [hq.queue]), hq.clock, hq.outages⟩

private theorem ends_publish (m : Message) (p : Pipeline) :
    Ends (publish (.ok m)) p (fun _ q => Published m p q) fun _ _ => False := by
  have hcount {q : Pipeline} (c : Counter) : Ends (count c 1) q (fun _ r => SameStores q r) fun _ _ => False :=
    .modify ⟨rfl, rfl, rfl, rfl, rfl, id⟩
  refine Ends.returned (Ends.tryCatch (?_ : Ends _ p _ fun _ q => SameStores p q) fun f q hq => ?_)
  · refine (ends_sendMessage m p).bind (fun _ q hq => ?_) fun _ _ hq => hq
    exact (hcount .messagesPublished).bind (fun _ _ hr => .pure (hq.trans_same hr)) fun _ _ h => h.elim
  · have hnoted : Ends (degraded f) q (fun _ r => SameStores q r) fun _ _ => False :=
      (hcount .publishDegraded).bind (fun _ _ hr => .pure hr) fun _ _ h => h
    exact hnoted.bind (fun o r hr => .pure (.of_same (Trans.trans hq hr))) fun _ _ h => h

private theorem ends_getRecord (ctx : Context) (id : String) (p : Pipeline) :
    Ends (getRecord ctx id) p (fun found q => p.records.get ctx id = .ok found ∧ SameStores p q)
      fun _ q => SameStores p q := by
  refine (reads_pass .storeRead SameStores p).bind (fun _ q hq => ?_) fun _ _ hq => hq
  refine (Ends.got q).bind ?_ fun _ _ h => h.elim
  rintro _ _ ⟨rfl, rfl⟩
  exact .lift (fun found h => ⟨hq.records ▸ h, hq⟩) fun _ _ => hq

private theorem ends_deleteRecord (ctx : Context) (id : String) (p : Pipeline) :
    Ends (deleteRecord ctx id) p
      (fun found q => (found = false ∧ SameStores p q) ∨
        ∃ tenant, ctx.tenant = some tenant ∧ p.records.checkWritable = .ok () ∧
          found = p.records.rows.has tenant id ∧
          SameStores { p with records := { p.records with rows := p.records.rows.erase tenant id } } q)
      fun _ q => SameStores p q := by
  refine (reads_struck .storeVanish SameStores p).bind (fun fails q hq => ?_) fun _ _ hq => hq
  cases fails with
  | true => exact .pure (.inl ⟨rfl, hq⟩)
  | false =>
    refine (Ends.got q).bind ?_ fun _ _ h => h.elim
    rintro _ _ ⟨rfl, rfl⟩
    refine (Ends.lifted _ _).bind ?_ fun _ _ h => h ▸ hq
    rintro ⟨found, records⟩ _ ⟨hdelete, rfl⟩
    simp only [RecordStore.delete, Failure.bind_eq_ok, Context.requireTenant_eq_ok, hq.records] at hdelete
    obtain ⟨tenant, htenant, _, hwritable, hdelete⟩ := hdelete
    cases hdelete
    refine Ends.bind (Ends.set ?_) (fun _ _ h => .pure h) fun _ _ h => h
    exact .inr ⟨tenant, htenant, hwritable, rfl, hq.with_records _⟩

end Pipeline

namespace Write

open Pipeline

/-- A write that is done has had its effect; a write that is refused has had none. -/
private def Settles (w : Write) (p : Pipeline) : Prop :=
  Ends w.perform p
    (fun receipt q => ∃ x, w.effect p.records = .ok x ∧ receipt.ids = x.ids ∧
      Published x.message { p with records := x.records } q)
    fun _ q => SameStores p q

variable (ctx : Context) (now : Instant) (p : Pipeline)

private theorem settles_create (request : NewEvent) (freshId : String) :
    Settles (create ctx request now freshId) p := by
  refine (Ends.lifted ctx.writeTenant p).bind ?_ fun _ _ h => .of_eq h
  rintro tenant _ ⟨htenant, rfl⟩
  refine (reads_count (by decide) _ SameStores _).bind (fun _ q hq => ?_) fun _ _ hq => hq
  refine (ends_validated _ q).bind ?_ fun _ _ hr => Trans.trans hq hr
  rintro e r ⟨haccept, hr⟩
  have hr := Trans.trans hq hr
  refine (ends_persist ctx [e] r).bind ?_ fun _ _ hs => Trans.trans hr hs
  rintro _ s ⟨records, hcreate, hs⟩
  refine (ends_publish (.index e now) s).bind (fun o t ht => .pure ?_) fun _ _ h => h.elim
  rw [hr.records] at hcreate
  refine ⟨⟨records, .index e now, [e.id]⟩, ?_, rfl, ?_⟩
  · simp [effect, htenant, haccept, hcreate]
  · exact SameStores.published (Trans.trans (hr.with_records records) hs) ht

private theorem settles_createAll (requests : List NewEvent) (freshIds : Nat → String) :
    Settles (createAll ctx requests now freshIds) p := by
  refine (Ends.lifted ctx.writeTenant p).bind ?_ fun _ _ h => .of_eq h
  rintro tenant _ ⟨htenant, rfl⟩
  refine (Ends.lifted (checkBatch requests.length) _).bind ?_ fun _ _ h => .of_eq h
  rintro _ _ ⟨hsize, rfl⟩
  refine (reads_count (by decide) _ SameStores _).bind (fun _ q hq => ?_) fun _ _ hq => hq
  refine (ends_validated _ q).bind ?_ fun _ _ hr => Trans.trans hq hr
  rintro events r ⟨haccept, hr⟩
  refine (ends_validated _ r).bind ?_ fun _ _ hs => Trans.trans (Trans.trans hq hr) hs
  rintro _ s ⟨hdistinct, hs⟩
  have hs : SameStores _ s := Trans.trans (Trans.trans hq hr) hs
  refine (ends_persist ctx events s).bind ?_ fun _ _ ht => Trans.trans hs ht
  rintro _ t ⟨records, hcreate, ht⟩
  have hsome := NewEvent.ne_nil_of_acceptAll hsize haccept
  have hbulk := Message.bulkIndex_eq_ok now hsome (NewEvent.tenant_of_mem_acceptAll haccept)
  rw [hbulk]
  refine (ends_publish _ t).bind (fun o u hu => .pure ?_) fun _ _ h => h.elim
  rw [hs.records] at hcreate
  refine ⟨⟨records, ⟨.bulkIndex, tenant, events, none, now⟩, events.map Event.id⟩, ?_, rfl, ?_⟩
  · simp [effect, htenant, hsize, haccept, hdistinct, hcreate]
  · exact SameStores.published (Trans.trans (hs.with_records records) ht) hu

private theorem settles_delete (id : String) : Settles (delete ctx id now) p := by
  refine (Ends.lifted ctx.writeTenant p).bind ?_ fun _ _ h => .of_eq h
  rintro tenant _ ⟨htenant, rfl⟩
  refine (ends_getRecord ctx id _).bind ?_ fun _ _ hq => hq
  rintro found q ⟨hget, hq⟩
  have hctx := Context.writeTenant_eq_ok.mp htenant
  simp only [RecordStore.get, Context.requireTenant_eq_ok.mpr hctx, Failure.ok_bind, Failure.pure_eq,
    Except.ok.injEq] at hget
  cases found with
  | none => exact .throw hq
  | some e =>
    refine (ends_deleteRecord ctx id q).bind ?_ fun _ _ hr => Trans.trans hq hr
    rintro found r (⟨rfl, hr⟩ | ⟨owner, howner, hwritable, rfl, hr⟩)
    · exact .throw (Trans.trans hq hr)
    · rw [hctx] at howner
      cases howner
      rw [hq.records] at hwritable hr ⊢
      have hfound : EventTable.has _ tenant id = true := congrArg Option.isSome hget
      rw [hfound]
      refine (ends_publish (.delete tenant id now) r).bind (fun o s hs => .pure ?_) fun _ _ h => h.elim
      refine ⟨⟨_, .delete tenant id now, [id]⟩, ?_, rfl, (Trans.trans (hq.with_records _) hr).published hs⟩
      simp [effect, htenant, hfound, hwritable]

theorem ends_perform (w : Write) (p : Pipeline) :
    Ends w.perform p
      (fun receipt q => ∃ x, w.effect p.records = .ok x ∧ receipt.ids = x.ids ∧
        Published x.message { p with records := x.records } q)
      fun _ q => SameStores p q := by
  cases w with
  | create ctx request now freshId => exact settles_create ctx now p request freshId
  | createAll ctx requests now freshIds => exact settles_createAll ctx now p requests freshIds
  | delete ctx id now => exact settles_delete ctx now p id

private theorem ofTenant_effect_of_ne {w : Write} {s : RecordStore} {x : Written} (h : w.effect s = .ok x)
    {other : TenantId} (hother : other ≠ x.message.tenant) :
    x.records.rows.ofTenant other = s.rows.ofTenant other := by
  obtain ⟨-, -, ⟨-, -, hevents, hadd⟩ | ⟨_, id, _, -, -, -, herase⟩⟩ := effect_cases h
  · rw [(EventTable.addAll_eq_ok hadd).1]
    exact EventTable.ofTenant_putAll_of_ne fun e he => (hevents e he).1 ▸ hother.symm
  · rw [herase]
    exact EventTable.ofTenant_erase_of_ne hother.symm id

theorem ends_perform_changes (w : Write) (p : Pipeline) :
    Ends w.perform p (fun _ q => ∃ tenant, w.context.tenant = some tenant ∧ ChangesEvents tenant p q)
      fun _ q => SameStores p q := by
  refine (ends_perform w p).mono ?_ fun _ _ h => h
  rintro _ q ⟨x, hx, -, hq⟩
  refine ⟨x.message.tenant, (effect_cases hx).1, fun other h => ?_, hq.registry, hq.index, ?_,
    hq.clock, hq.outages⟩
  · rw [hq.records]
    exact ofTenant_effect_of_ne hx h
  · exact hq.queue.imp id fun h => ⟨_, rfl, h⟩

end Write

namespace Pipeline

/-! ## Purges -/

private theorem ends_purgeRecords (ctx : Context) (cutoff : Instant) (p : Pipeline) :
    Ends (purgeRecords ctx cutoff) p
      (fun _ q => ∃ tenant, ctx.tenant = some tenant ∧
        SameStores { p with records := { p.records with
          rows := p.records.rows.filter fun e => !RecordStore.isStale tenant cutoff e } } q)
      fun _ q => SameStores p q := by
  refine (reads_pass .storePurge SameStores p).bind (fun _ q hq => ?_) fun _ _ hq => hq
  refine (Ends.got q).bind ?_ fun _ _ h => h.elim
  rintro _ _ ⟨rfl, rfl⟩
  refine (Ends.lifted _ _).bind ?_ fun _ _ h => h ▸ hq
  rintro ⟨n, records⟩ _ ⟨hpurge, rfl⟩
  simp only [RecordStore.purge, Failure.bind_eq_ok, Context.requireTenant_eq_ok, hq.records] at hpurge
  obtain ⟨tenant, htenant, _, -, hpurge⟩ := hpurge
  cases hpurge
  refine Ends.bind (Ends.set ?_) (fun _ _ h => .pure h) fun _ _ h => h
  exact ⟨tenant, htenant, hq.with_records _⟩

theorem ends_purge (now : Instant) (ctx : Context) (policy : RetentionPolicy) (p : Pipeline) :
    Ends (purge now ctx policy) p
      (fun _ q => ∃ tenant, ctx.tenant = some tenant ∧ ChangesEvents tenant p q ∧ q.queue = p.queue)
      fun _ q => SameStores p q := by
  refine (Ends.lifted ctx.requireTenant p).bind ?_ fun _ _ h => .of_eq h
  rintro _ _ ⟨-, rfl⟩
  cases policy.cutoff? now with
  | none => exact .throw (refl _)
  | some cutoff =>
    refine (ends_purgeRecords ctx cutoff _).bind ?_ fun _ _ hq => hq
    rintro n q ⟨tenant, htenant, hq⟩
    have hrows (other : TenantId) (hother : other ≠ tenant) :
        (p.records.rows.filter fun e => !RecordStore.isStale tenant cutoff e).ofTenant other =
          p.records.rows.ofTenant other := by
      apply EventTable.ofTenant_filter_of_pass
      intro e he
      simp [RecordStore.isStale, he, hother]
    refine Ends.bind (Ends.modify ?_) (fun _ _ h => .pure h) fun _ _ h => h
    refine ⟨tenant, htenant, ⟨fun other hother => ?_, hq.registry, hq.index, .inl hq.queue, hq.clock,
      hq.outages⟩, hq.queue⟩
    exact (congrArg (fun s => s.rows.ofTenant other) hq.records).trans (hrows other hother)

/-! ## Tenants -/

/-- The registry is replaced by what becomes of it, if anything does. -/
theorem ends_replaceRegistry (change : Registry → Except Failure Registry) (p : Pipeline) :
    Ends (do
        let p ← get
        let registry ← change p.registry
        set { p with registry } : Action Unit) p
      (fun _ q => ∃ registry, change p.registry = .ok registry ∧ q = { p with registry })
      fun _ q => p = q := by
  refine (Ends.got p).bind ?_ fun _ _ h => h.elim
  rintro _ _ ⟨rfl, rfl⟩
  refine (Ends.lifted _ _).bind ?_ fun _ _ h => h
  rintro registry _ ⟨hchange, rfl⟩
  exact .set ⟨registry, hchange, rfl⟩

private theorem ends_createTenant (t : Tenant) (p : Pipeline) :
    Ends (createTenant t) p (fun _ q => ∃ registry, p.registry.create t = .ok registry ∧ q = { p with registry })
      fun _ q => p = q := ends_replaceRegistry (·.create t) p

private theorem ends_updateTenant (t : Tenant) (p : Pipeline) :
    Ends (updateTenant t) p (fun _ q => ∃ registry, p.registry.update t = .ok registry ∧ q = { p with registry })
      fun _ q => p = q := ends_replaceRegistry (·.update t) p

theorem ends_requireTenant (id : TenantId) (p : Pipeline) :
    Ends (requireTenant id) p (fun t q => p.registry.get? id = some t ∧ p = q) fun _ q => SameStores p q := by
  have hget : Ends (getTenant id) p (fun found q => p.registry.get? id = found ∧ p = q) fun _ _ => False := by
    refine (Ends.got p).bind ?_ fun _ _ h => h
    rintro _ _ ⟨rfl, rfl⟩
    exact .pure ⟨rfl, rfl⟩
  refine hget.bind ?_ fun _ _ h => h.elim
  rintro found _ ⟨hfound, rfl⟩
  cases found with
  | none => exact .throw (refl p)
  | some t => exact .pure ⟨hfound, rfl⟩

theorem ends_registerTenant (now : Instant) (freshId keyUuid : String) (request : NewTenant) (p : Pipeline) :
    Ends (registerTenant now freshId keyUuid request) p
      (fun t q => Tenant.register request now freshId keyUuid = .ok t ∧
        p.registry.create t = .ok q.registry ∧
        (q.index = p.index ∨ q.index = p.index.createPartition t.id now) ∧ ManagesTenants p q)
      fun _ q => SameStores p q := by
  refine (Ends.lifted _ p).bind ?_ fun _ _ h => .of_eq h
  rintro t _ ⟨hregister, rfl⟩
  refine (ends_createTenant t p).bind ?_ fun _ _ h => .of_eq h
  rintro _ _ ⟨registry, hcreate, rfl⟩
  have hattempt : Ends (attempt (createPartition t.id now)) { p with registry }
      (fun _ q => p.registry.create t = .ok q.registry ∧
        (q.index = p.index ∨ q.index = p.index.createPartition t.id now) ∧ ManagesTenants p q)
      fun _ _ => False := by
    refine Ends.tryCatch (?_ : Ends _ _ _ fun _ q => SameStores { p with registry } q) fun _ q hq => ?_
    · refine (reads_pass .indexCreate SameStores _).bind (fun _ q hq => .modify ?_) fun _ _ hq => hq
      exact ⟨hq.registry ▸ hcreate, .inr (congrArg (·.createPartition t.id now) hq.index), hq.records,
        hq.queue, hq.clock, hq.outages⟩
    · exact .pure ⟨hq.registry ▸ hcreate, .inl hq.index, hq.records, hq.queue, hq.clock, hq.outages⟩
  exact hattempt.bind (fun _ _ hq => .pure ⟨hregister, hq⟩) fun _ _ h => h.elim

theorem ends_renameTenant (now : Instant) (id : TenantId) (request : TenantUpdate) (p : Pipeline) :
    Ends (renameTenant now id request) p
      (fun t q => Tenant.checkName request.name = .ok () ∧
        (∃ old, p.registry.get? id = some old ∧ t = old.rename request.name now) ∧
        p.registry.update t = .ok q.registry ∧ q.index = p.index ∧ ManagesTenants p q)
      fun _ q => SameStores p q := by
  refine (Ends.lifted _ p).bind ?_ fun _ _ h => .of_eq h
  rintro _ _ ⟨hcheck, rfl⟩
  refine (ends_requireTenant id p).bind ?_ fun _ _ h => h
  rintro old _ ⟨hold, rfl⟩
  refine (ends_updateTenant _ p).bind ?_ fun _ _ h => .of_eq h
  rintro _ _ ⟨registry, hupdate, rfl⟩
  exact .pure ⟨hcheck, ⟨old, hold, rfl⟩, hupdate, rfl, rfl, rfl, rfl, fun h => h⟩

private theorem ends_dropIndex (id : TenantId) (p : Pipeline) :
    Ends (dropIndex id) p (fun _ q => SameStores { p with index := p.index.drop id } q)
      fun _ q => SameStores p q := by
  refine (reads_pass .indexDrop SameStores p).bind (fun _ q hq => .modify ?_) fun _ _ hq => hq
  exact ⟨hq.records, hq.registry, congrArg (·.drop id) hq.index, hq.queue, hq.clock, hq.outages⟩

theorem ends_removeTenant (id : TenantId) (p : Pipeline) :
    Ends (removeTenant id) p
      (fun outcome q => p.registry.delete id = (true, q.registry) ∧
        (q.index = p.index.drop id ∨ (outcome ≠ .ok ∧ q.index = p.index)) ∧ ManagesTenants p q)
      fun _ q => SameStores p q := by
  have hdelete : Ends (deleteTenant id) p
      (fun found q => (p.registry.delete id).1 = found ∧ q = { p with registry := (p.registry.delete id).2 })
      fun _ _ => False := ⟨rfl, rfl⟩
  refine hdelete.bind ?_ fun _ _ h => h.elim
  rintro found _ ⟨hfound, rfl⟩
  cases found with
  | false => exact .throw ⟨rfl, Registry.delete_eq_self hfound, rfl, rfl, rfl, fun h => h⟩
  | true =>
    have hdeleted : p.registry.delete id = (true, (p.registry.delete id).2) := Prod.ext hfound rfl
    refine Ends.returned (Ends.tryCatch ((ends_dropIndex id _).bind (fun _ q hq => .pure ?_) fun _ _ hq => hq)
      fun f q hq => .pure ?_)
    · exact ⟨by rw [hq.registry, hdeleted], .inl hq.index, hq.records, hq.queue, hq.clock, hq.outages⟩
    · exact ⟨by rw [hq.registry, hdeleted], .inr ⟨by simp, hq.index⟩, hq.records, hq.queue, hq.clock,
        hq.outages⟩

end Pipeline

end AuditTrail
