import AuditTrail.Proofs.Deployment.Indexed
import AuditTrail.Proofs.Pipeline.Changes
/-!
# After the removal of a tenant

Removing a tenant takes its part out of the index at once. But messages about its events may still be ready or
leased, or in the hands of workers, and a worker does not ask who is registered: it makes the partitions that
it needs and puts the events into them. `Deployment.Since.index_told`: this is the only way in which something
of the tenant comes back, and what comes back is what those messages say.
-/

namespace AuditTrail

open Pipeline

/-- A move of a deployment in which tenants come and go. -/
inductive Turn where
  | move (v : Move)
  | register (now : Instant) (freshId keyUuid : String) (request : NewTenant)
  | rename (now : Instant) (id : TenantId) (request : TenantUpdate)
  | remove (id : TenantId)
  /-- Whatever leaves registry, index and queue as they are: reads, purges, health checks. -/
  | other (p : Pipeline)

namespace Deployment

def afterTurn (d : Deployment) : Turn → Deployment
  | .move v => d.after v
  | .register now freshId keyUuid request =>
    d.set (outcome (registerTenant now freshId keyUuid request) d.pipeline).2
  | .rename now id request => d.set (outcome (renameTenant now id request) d.pipeline).2
  | .remove id => d.set (outcome (removeTenant id) d.pipeline).2
  | .other p => d.set p

/-- The turns that are possible and neither register a tenant nor write for it. Any delivery that was received
may be applied, any token may be presented, and any text about other tenants may come onto the queue. -/
def Spares (tenant : TenantId) (d : Deployment) : Turn → Prop
  | .move (.write w) => w.context.tenant ≠ some tenant
  | .move (.apply x) => x ∈ d.received
  | .move (.inject body) => ∀ m, Message.decode body = .ok m → m.tenant ≠ tenant
  | .move (.reorder ready) => ready.Perm d.pipeline.queue.ready
  | .move _ => True
  | .register now freshId keyUuid request =>
    ∀ t, Tenant.register request now freshId keyUuid = .ok t → t.id ≠ tenant
  | .rename _ _ _ => True
  | .remove _ => True
  | .other p => p.registry = d.pipeline.registry ∧ p.index = d.pipeline.index ∧
      p.queue = d.pipeline.queue ∧ p.outages = .empty

/-- What a pipeline without outages becomes since a tenant was removed from it, while workers held some
deliveries, by turns that spare the tenant. -/
inductive Since (tenant : TenantId) (before : Pipeline) (held : List Delivery) : Deployment → Prop
  | removed {p : Pipeline} (hup : before.outages = .empty)
      (hremoved : outcome (removeTenant tenant) before = (.ok .ok, p)) : Since tenant before held ⟨p, [], held, []⟩
  | turn {d : Deployment} {v : Turn} (since : Since tenant before held d) (hspares : d.Spares tenant v) :
      Since tenant before held (d.afterTurn v)

/-- A message that was ready or leased, or in the hands of a worker. -/
def Outstanding (before : Pipeline) (held : List Delivery) (m : Message) : Prop :=
  ∃ b, (b ∈ before.queue.bodies ∨ b ∈ held.map Delivery.body) ∧ Message.decode b = .ok m

/-- A text that brings no message about a tenant but outstanding ones. -/
def Settled (tenant : TenantId) (before : Pipeline) (held : List Delivery) (body : String) : Prop :=
  ∀ m, Message.decode body = .ok m → m.tenant = tenant → Outstanding before held m

end Deployment

namespace SearchIndex

variable {s t : SearchIndex} {tenant other : TenantId}

private theorem mem_partitionsOf {x : Partition} :
    x ∈ s.partitionsOf tenant ↔ x ∈ s.partitions ∧ x.tenant = tenant := by
  simp [partitionsOf]

/-- There is the same of a tenant in two indexes. -/
structure Agree (tenant : TenantId) (s t : SearchIndex) : Prop where
  documents : t.documents.ofTenant tenant = s.documents.ofTenant tenant
  partitions : ∀ x, x ∈ t.partitionsOf tenant ↔ x ∈ s.partitionsOf tenant

theorem Agree.of_eq (h : t = s) : Agree tenant s t := by
  subst h
  exact ⟨rfl, fun _ => Iff.rfl⟩

private theorem agree_createPartition (h : other ≠ tenant) (asOf : Instant) :
    Agree tenant s (s.createPartition other asOf) where
  documents := rfl
  partitions x := by
    have hne : (Partition.ofInstant other asOf).tenant ≠ tenant := h
    rw [mem_partitionsOf, mem_partitionsOf, createPartition, Partition.mem_insert]
    grind

private theorem agree_drop (h : other ≠ tenant) : Agree tenant s (s.drop other) where
  documents := by
    apply EventTable.ofTenant_filter_of_pass
    intro e he
    simp [he, h.symm]
  partitions x := by
    simp only [mem_partitionsOf, drop, List.mem_filter, decide_eq_true_eq]
    grind

end SearchIndex

namespace Deployment

variable {tenant : TenantId} {before : Pipeline} {held : List Delivery} {d : Deployment}

/-- What holds of a deployment since a tenant was removed. -/
structure Remnant (tenant : TenantId) (before : Pipeline) (held : List Delivery) (d : Deployment) : Prop where
  up : d.pipeline.outages = .empty
  gone : ∀ t ∈ d.pipeline.registry.tenants, t.id ≠ tenant
  queued : ∀ b ∈ d.pipeline.queue.bodies, Settled tenant before held b
  received : ∀ x ∈ d.received, Settled tenant before held x.body
  applied : ∀ m ∈ d.appliedMessages, m.check = .ok m ∧ (m.tenant = tenant → Outstanding before held m)
  documents : ∀ id, d.pipeline.index.documents.get? tenant id = Message.lastTold d.appliedMessages (tenant, id)
  partitions : ∀ x, x ∈ d.pipeline.index.partitionsOf tenant ↔
    ∃ m ∈ d.appliedMessages, m.tenant = tenant ∧ x ∈ m.partitions

namespace Remnant

theorem removed {p : Pipeline} (hup : before.outages = .empty)
    (h : outcome (removeTenant tenant) before = (.ok .ok, p)) : Remnant tenant before held ⟨p, [], held, []⟩ := by
  obtain ⟨hregistry, hindex, hp⟩ := done_of_outcome (ends_removeTenant tenant before) h
  have hdropped : p.index = before.index.drop tenant := by
    rcases hindex with hindex | ⟨hne, -⟩
    · exact hindex
    · exact absurd rfl hne
  refine ⟨hp.outages hup, ?_, ?_, ?_, by simp [appliedMessages], ?_, ?_⟩
  · intro t ht
    have ht : t ∈ (before.registry.delete tenant).2.tenants := by rwa [hregistry]
    exact (Registry.mem_delete.mp ht).2
  · intro b hb m hm _
    exact ⟨b, .inl (hp.queue ▸ hb), hm⟩
  · intro x hx m hm _
    exact ⟨x.body, .inr (List.mem_map_of_mem hx), hm⟩
  · intro id
    have hnone : (before.index.documents.eraseTenant tenant).ofTenant tenant = [] := by
      simp [EventTable.ofTenant, EventTable.eraseTenant, EventTable.filter]
    rw [hdropped, SearchIndex.drop, EventTable.get?_eq_find?, hnone]
    rfl
  · intro x
    rw [hdropped, SearchIndex.mem_partitionsOf]
    simp [SearchIndex.drop, appliedMessages]

/-- A change that leaves the part of the tenant in the index as it is. -/
theorem keep (h : Remnant tenant before held d) {p : Pipeline} (hup : p.outages = .empty)
    (hgone : ∀ t ∈ p.registry.tenants, t.id ≠ tenant)
    (hqueue : ∀ b ∈ p.queue.bodies, b ∈ d.pipeline.queue.bodies ∨ Settled tenant before held b)
    (hindex : SearchIndex.Agree tenant d.pipeline.index p.index) : Remnant tenant before held (d.set p) where
  up := hup
  gone := hgone
  queued b hb := (hqueue b hb).elim (h.queued b) id
  received := h.received
  applied := h.applied
  documents id := (EventTable.get?_congr hindex.documents id).trans (h.documents id)
  partitions x := (hindex.partitions x).trans (h.partitions x)

private theorem requeue (h : Remnant tenant before held d) {queue : Queue}
    (hqueue : ∀ b ∈ queue.bodies, b ∈ d.pipeline.queue.bodies ∨ Settled tenant before held b) :
    Remnant tenant before held (d.setQueue queue) := h.keep h.up h.gone hqueue (.of_eq rfl)

theorem same (h : Remnant tenant before held d) {p : Pipeline} (hp : SameStores d.pipeline p) :
    Remnant tenant before held (d.set p) :=
  h.keep (hp.outages h.up) (by rw [hp.registry]; exact h.gone) (fun b hb => .inl (hp.queue ▸ hb))
    (.of_eq hp.index)

/-! ## Moves -/

theorem write (h : Remnant tenant before held d) {w : Write} (hw : w.context.tenant ≠ some tenant) :
    Remnant tenant before held (d.after (.write w)) := by
  have hends : Remnant tenant before held (d.set (outcome w.perform d.pipeline).2) := by
    refine after_of_ends (R := fun q => Remnant tenant before held (d.set q))
      ((w.ends_perform_changes d.pipeline).mono ?_ fun _ q hq => h.same hq)
    rintro _ q ⟨owner, howner, hq⟩
    have hne : owner ≠ tenant := fun heq => hw (heq ▸ howner)
    refine h.keep (hq.outages h.up) (by rw [hq.registry]; exact h.gone) ?_ (.of_eq hq.index)
    intro b hb
    rcases hq.queue with hsame | ⟨m, hm, hsent⟩
    · exact .inl (hsame ▸ hb)
    · rw [hsent, Queue.send, Queue.mem_bodies_sendText] at hb
      refine hb.imp id ?_
      rintro rfl n hn htenant
      exact absurd ((Message.tenant_of_decode_encode hn).symm.trans htenant) (hm ▸ hne)
  exact ⟨hends.up, hends.gone, hends.queued, hends.received, hends.applied, hends.documents, hends.partitions⟩

theorem receive (h : Remnant tenant before held d) (max wait : Nat) :
    Remnant tenant before held (d.after (.receive max wait)) := by
  obtain ⟨hbodies, hdelivered⟩ := d.pipeline.queue.bodies_receive max wait d.pipeline.clock
  change Remnant tenant before held (d.afterReceive max wait)
  rw [afterReceive, outcome_receiveMessages h.up]
  refine ⟨h.up, h.gone, fun b hb => h.queued b ((hbodies b).mp hb), ?_, h.applied, h.documents, h.partitions⟩
  intro x hx
  rcases List.mem_append.mp hx with hx | hx
  · exact h.received x hx
  · exact h.queued x.body (hdelivered x hx)

/-- The index takes what a sound message says, and the message counts as applied. -/
theorem afterMessage (h : Remnant tenant before held d) {x : Delivery} {m : Message} (hm : m.check = .ok m)
    (hsettled : m.tenant = tenant → Outstanding before held m) :
    Remnant tenant before held (d.afterMessage x m) := by
  rw [Deployment.afterMessage, outcome_applyMessage h.up hm]
  have happlied : ({ d with applied := d.applied ++ [(x, m)] } : Deployment).appliedMessages =
      d.appliedMessages ++ [m] := by simp [appliedMessages]
  refine ⟨h.up, h.gone, h.queued, h.received, ?_, ?_, ?_⟩
  · intro n hn
    change n ∈ ({ d with applied := d.applied ++ [(x, m)] } : Deployment).appliedMessages at hn
    rw [happlied] at hn
    rcases List.mem_append.mp hn with hn | hn
    · exact h.applied n hn
    · rw [List.mem_singleton.mp hn]
      exact ⟨hm, hsettled⟩
  · intro id
    change (d.pipeline.index.documents.absorb m).get? tenant id =
      Message.lastTold ({ d with applied := d.applied ++ [(x, m)] } : Deployment).appliedMessages (tenant, id)
    rw [happlied, Message.lastTold_append, EventTable.get?_absorb, h.documents]
  · intro y
    change y ∈ (d.pipeline.index.absorb m).partitionsOf tenant ↔
      ∃ n ∈ ({ d with applied := d.applied ++ [(x, m)] } : Deployment).appliedMessages, _
    have hold := h.partitions y
    rw [SearchIndex.mem_partitionsOf] at hold
    rw [happlied, SearchIndex.mem_partitionsOf, SearchIndex.absorb, Partition.mem_insertAll]
    have hmember : y ∈ m.partitions → y.tenant = m.tenant := Message.tenant_of_mem_partitions
    simp only [List.mem_append, List.mem_singleton]
    grind

theorem apply (h : Remnant tenant before held d) {x : Delivery} (hx : x ∈ d.received) :
    Remnant tenant before held (d.after (.apply x)) := by
  cases hread : Message.decode x.body with
  | error f =>
    change Remnant tenant before held (d.afterApply x)
    rw [afterApply, hread]
    exact h
  | ok m =>
    rw [after_apply hread]
    exact h.afterMessage (Message.check_of_decode hread) (h.received x hx m hread)

theorem acknowledge (h : Remnant tenant before held d) (x : Delivery) :
    Remnant tenant before held (d.after (.acknowledge x)) := by
  change Remnant tenant before held (d.set (outcome (Pipeline.acknowledge x.token) d.pipeline).2)
  rw [outcome_acknowledge h.up]
  cases hqueue : d.pipeline.queue.acknowledge x.token with
  | error f => exact h
  | ok queue => exact h.requeue fun b hb => .inl (Queue.mem_bodies_of_acknowledge hqueue hb)

theorem move (h : Remnant tenant before held d) {v : Move} (hspares : d.Spares tenant (.move v)) :
    Remnant tenant before held (d.after v) := by
  cases v with
  | write w => exact h.write hspares
  | receive max wait => exact h.receive max wait
  | apply x => exact h.apply hspares
  | acknowledge x => exact h.acknowledge x
  | pass millis => exact h.keep h.up h.gone (fun _ hb => .inl hb) (.of_eq rfl)
  | releaseAll =>
    exact h.requeue fun b hb => .inl (((Queue.releaseAll_hands d.pipeline.queue).bodies b).mp hb)
  | inject body =>
    refine h.requeue fun b hb => ?_
    rcases (Queue.mem_bodies_sendText d.pipeline.queue body b).mp hb with hb | rfl
    · exact .inl hb
    · exact .inr fun m hm htenant => absurd htenant (hspares m hm)
  | reorder ready => exact h.requeue fun b hb => .inl (((Queue.reorder_hands hspares).bodies b).mp hb)
  | favour i => exact h.requeue fun b hb => .inl (((Queue.favour_hands _ i).bodies b).mp hb)

/-! ## The management of tenants -/

private theorem manage (h : Remnant tenant before held d) {p : Pipeline} (hp : ManagesTenants d.pipeline p)
    (hgone : ∀ t ∈ p.registry.tenants, t.id ≠ tenant)
    (hindex : SearchIndex.Agree tenant d.pipeline.index p.index) : Remnant tenant before held (d.set p) :=
  h.keep (hp.outages h.up) hgone (fun _ hb => .inl (hp.queue ▸ hb)) hindex

theorem register (h : Remnant tenant before held d) {now : Instant} {freshId keyUuid : String}
    {request : NewTenant} (hother : ∀ t, Tenant.register request now freshId keyUuid = .ok t → t.id ≠ tenant) :
    Remnant tenant before held (d.afterTurn (.register now freshId keyUuid request)) := by
  refine after_of_ends (R := fun q => Remnant tenant before held (d.set q))
    ((ends_registerTenant now freshId keyUuid request d.pipeline).mono ?_ fun _ q hq => h.same hq)
  rintro t q ⟨hregister, hcreate, hindex, hq⟩
  have ht := hother t hregister
  refine h.manage hq ?_ ?_
  · intro u hu
    rcases (Registry.mem_create hcreate).mp hu with hu | rfl
    · exact h.gone u hu
    · exact ht
  · rcases hindex with hindex | hindex
    · exact .of_eq hindex
    · rw [hindex]
      exact SearchIndex.agree_createPartition ht now

theorem rename (h : Remnant tenant before held d) (now : Instant) (id : TenantId) (request : TenantUpdate) :
    Remnant tenant before held (d.afterTurn (.rename now id request)) := by
  refine after_of_ends (R := fun q => Remnant tenant before held (d.set q))
    ((ends_renameTenant now id request d.pipeline).mono ?_ fun _ q hq => h.same hq)
  rintro t q ⟨-, ⟨old, hold, rfl⟩, hupdate, hindex, hq⟩
  refine h.manage hq ?_ (.of_eq hindex)
  intro u hu
  rcases (Registry.mem_update hupdate).mp hu with rfl | ⟨hu, -⟩
  · exact h.gone old (Registry.get?_eq_some.mp hold).1
  · exact h.gone u hu

theorem remove (h : Remnant tenant before held d) (id : TenantId) :
    Remnant tenant before held (d.afterTurn (.remove id)) := by
  refine after_of_ends (R := fun q => Remnant tenant before held (d.set q))
    ((ends_removeTenant id d.pipeline).mono ?_ fun _ q hq => h.same hq)
  rintro _ q ⟨hdelete, hindex, hq⟩
  have hne : id ≠ tenant := by
    rintro rfl
    have hfound : (d.pipeline.registry.get? id).isSome := congrArg Prod.fst hdelete
    obtain ⟨t, ht⟩ := Option.isSome_iff_exists.mp hfound
    obtain ⟨hmem, hid⟩ := Registry.get?_eq_some.mp ht
    exact h.gone t hmem hid
  have hregistry : q.registry = (d.pipeline.registry.delete id).2 := (congrArg Prod.snd hdelete).symm
  refine h.manage hq ?_ ?_
  · intro t ht
    rw [hregistry] at ht
    exact h.gone t (Registry.mem_delete.mp ht).1
  · rcases hindex with hindex | ⟨-, hindex⟩
    · rw [hindex]
      exact SearchIndex.agree_drop hne
    · exact .of_eq hindex

theorem turn (h : Remnant tenant before held d) {v : Turn} (hspares : d.Spares tenant v) :
    Remnant tenant before held (d.afterTurn v) := by
  cases v with
  | move v => exact h.move hspares
  | register now freshId keyUuid request => exact h.register hspares
  | rename now id request => exact h.rename now id request
  | remove id => exact h.remove id
  | other p =>
    obtain ⟨hregistry, hindex, hqueue, hup⟩ := hspares
    exact h.keep hup (by rw [hregistry]; exact h.gone) (fun b hb => .inl (hqueue ▸ hb)) (.of_eq hindex)

private theorem nothing_iff (h : Remnant tenant before held d) :
    (d.pipeline.index.documents.ofTenant tenant = [] ∧ d.pipeline.index.partitionsOf tenant = []) ↔
      ∀ m ∈ d.appliedMessages, m.tenant = tenant → m.kind = .delete := by
  constructor
  · rintro ⟨-, hnone⟩ m hm htenant
    by_contra hkind
    -- A message that puts events into the index has one at least, and its partition would be there.
    obtain ⟨e, he⟩ := List.exists_mem_of_ne_nil _ (Message.events_ne_nil_of_check (h.applied m hm).1 hkind)
    have hmade := (h.partitions _).mpr ⟨m, hm, htenant, Message.mem_partitions.mpr ⟨hkind, e, he, rfl⟩⟩
    rw [hnone] at hmade
    cases hmade
  · intro hdeleted
    constructor
    · rw [List.eq_nil_iff_forall_not_mem]
      intro e he
      obtain ⟨he, htenant⟩ := EventTable.mem_ofTenant.mp he
      rw [EventTable.mem_iff_get?, htenant, h.documents] at he
      obtain ⟨m, hm, hem, hkind⟩ := Message.exists_of_lastTold he
      have howner := Message.tenant_of_check (h.applied m hm).1 hem
      exact hkind (hdeleted m hm (howner.symm.trans htenant))
    · rw [List.eq_nil_iff_forall_not_mem]
      intro x hx
      obtain ⟨m, hm, htenant, hmade⟩ := (h.partitions x).mp hx
      exact (Message.mem_partitions.mp hmade).1 (hdeleted m hm htenant)

end Remnant

private theorem Since.remnant (h : Since tenant before held d) : Remnant tenant before held d := by
  induction h with
  | removed hup hremoved => exact .removed hup hremoved
  | turn since hspares ih => exact ih.turn hspares

/-- Once a tenant was removed, the index holds of it just what was put there by messages that have been applied
since, and those were outstanding when it was removed: its documents are what they told last, and its
partitions those that they asked for. So there is nothing of the tenant as long as each of them was about a
deletion. -/
theorem Since.index_told (h : Since tenant before held d) :
    (∀ id, d.pipeline.index.documents.get? tenant id = Message.lastTold d.appliedMessages (tenant, id)) ∧
      (∀ x, x ∈ d.pipeline.index.partitionsOf tenant ↔
        ∃ m ∈ d.appliedMessages, m.tenant = tenant ∧ x ∈ m.partitions) ∧
      (∀ m ∈ d.appliedMessages, m.tenant = tenant → Outstanding before held m) ∧
      ((d.pipeline.index.documents.ofTenant tenant = [] ∧ d.pipeline.index.partitionsOf tenant = []) ↔
        ∀ m ∈ d.appliedMessages, m.tenant = tenant → m.kind = .delete) := by
  have hremnant := h.remnant
  exact ⟨hremnant.documents, hremnant.partitions, fun m hm => (hremnant.applied m hm).2, hremnant.nothing_iff⟩

/-- The deployment after acme was registered and somebody has signed in there. -/
def inUse : Deployment :=
  ((new 30000 unaryToken).afterTurn (.register .epoch "f1" "k1" ⟨some "acme", "Acme"⟩)).after
    (.write (.signIn "e1"))

/-- The deployment after acme was removed, before any worker has received the message about the sign-in. -/
def removedInUse : Deployment := ⟨(outcome (removeTenant .acme) inUse.pipeline).2, [], [], []⟩

/-- The deployment after a worker has received the message and applied it. -/
def signedInLate : Deployment :=
  (removedInUse.after (.receive 10 0)).afterMessage (signInDelivery 0 1) (.signIn "e1")

private theorem removal_done :
    outcome (removeTenant .acme) inUse.pipeline = (.ok .ok, removedInUse.pipeline) := Prod.ext rfl rfl

private theorem signedInLate_since : Since .acme inUse.pipeline [] signedInLate := by
  have hremoved : Since .acme inUse.pipeline [] removedInUse := .removed rfl removal_done
  have hreceived : Since .acme inUse.pipeline [] (removedInUse.afterTurn (.move (.receive 10 0))) :=
    hremoved.turn trivial
  have hheld : signInDelivery 0 1 ∈ (removedInUse.after (.receive 10 0)).received :=
    List.mem_singleton.mpr rfl
  have happlied := hreceived.turn (v := .move (.apply (signInDelivery 0 1))) hheld
  rw [afterTurn, after_apply (decode_signInDelivery 0 1)] at happlied
  exact happlied

/-- A removed tenant has a document and a partition again, although nobody has registered it or written for it
since. -/
theorem removed_tenant_comes_back :
    outcome (removeTenant .acme) inUse.pipeline = (.ok .ok, removedInUse.pipeline) ∧
      Since .acme inUse.pipeline [] signedInLate ∧
      ¬ (signedInLate.pipeline.index.documents.ofTenant .acme = [] ∧
        signedInLate.pipeline.index.partitionsOf .acme = []) := by
  have hdocuments : signedInLate.pipeline.index.documents.ofTenant .acme = [.signIn "e1"] := rfl
  refine ⟨removal_done, signedInLate_since, ?_⟩
  rw [hdocuments]
  simp

/-- What came back of the tenant is the sign-in that was on the queue when it was removed. -/
theorem comes_back_as_told :
    Since .acme inUse.pipeline [] signedInLate ∧
      signedInLate.pipeline.index.documents.get? .acme "e1" = some (.signIn "e1") ∧
      Outstanding inUse.pipeline [] (.signIn "e1") := by
  obtain ⟨htold, -, houtstanding, -⟩ := signedInLate_since.index_told
  exact ⟨signedInLate_since, htold "e1", houtstanding _ (List.mem_singleton.mpr rfl) rfl⟩

end Deployment

end AuditTrail
