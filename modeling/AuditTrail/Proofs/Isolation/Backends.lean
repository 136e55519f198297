import AuditTrail.Proofs.Event.Tenants
import AuditTrail.Proofs.Isolation.Views
import AuditTrail.Proofs.Pipeline.Writes
/-!
# Backends keep tenants apart

What the record store and the search index do in the context of a tenant stays within that tenant. Events and
partitions are told apart by their tenants, not by the identifiers that clients give.
-/

namespace AuditTrail

namespace RecordStore

variable {s t : RecordStore} {ctx : Context} {tenant : TenantId}

private theorem checkWritable_congr (h : s.writable = t.writable) : s.checkWritable = t.checkWritable := by
  rw [checkWritable, checkWritable, h]

private theorem create_congr (hctx : ctx.tenant = some tenant)
    (hrows : s.rows.ofTenant tenant = t.rows.ofTenant tenant) (hwritable : s.writable = t.writable)
    (events : List Event) :
    (∃ f, s.create ctx events = .error f ∧ t.create ctx events = .error f) ∨
      ∃ u v : EventTable, s.create ctx events = .ok { s with rows := u } ∧
        t.create ctx events = .ok { t with rows := v } ∧ u.ofTenant tenant = v.ofTenant tenant := by
  simp only [create, Context.requireTenant_eq_ok.mpr hctx, checkWritable_congr hwritable, Failure.ok_bind]
  cases t.checkWritable with
  | error f => exact .inl ⟨f, rfl, rfl⟩
  | ok _ =>
    cases howner : checkOwner tenant events with
    | error f => exact .inl ⟨f, rfl, rfl⟩
    | ok _ =>
      rcases EventTable.addAll_congr (checkOwner_eq_ok.mp howner) hrows with
        ⟨e, hs, ht⟩ | ⟨u, v, hs, ht, huv⟩
      · exact .inl ⟨_, by rw [hs]; rfl, by rw [ht]; rfl⟩
      · exact .inr ⟨u, v, by rw [hs]; rfl, by rw [ht]; rfl, huv⟩

private theorem countP_isStale (s : RecordStore) (tenant : TenantId) (cutoff : Instant) :
    s.rows.events.countP (isStale tenant cutoff) =
      (s.rows.ofTenant tenant).countP fun e => decide (e.timestamp < cutoff) := by
  rw [EventTable.ofTenant, List.countP_filter]
  apply List.countP_congr
  intro e _
  simp [isStale, and_comm]

end RecordStore

namespace SearchIndex

variable {s t : SearchIndex} {tenant : TenantId}

private theorem checkEvent_congr (h : s.partitionsOf tenant = t.partitionsOf tenant) :
    s.checkEvent tenant = t.checkEvent tenant := by
  have hmem (s : SearchIndex) (asOf : Instant) :
      Partition.ofInstant tenant asOf ∈ s.partitions ↔
        Partition.ofInstant tenant asOf ∈ s.partitionsOf tenant := by
    simp [partitionsOf, Partition.ofInstant]
  funext e
  simp only [checkEvent, hmem, h]

private theorem tenant_of_checkEvents {events : List Event} (h : events.forM (s.checkEvent tenant) = .ok ()) :
    ∀ e ∈ events, e.tenant = tenant := by
  induction events with
  | nil => simp
  | cons e rest ih =>
    simp only [List.forM_eq_forM, List.forM_cons, Failure.bind_eq_ok] at h ih
    obtain ⟨_, hcheck, hrest⟩ := h
    have he : e.tenant = tenant := by
      by_contra hne
      simp [checkEvent, hne] at hcheck
    intro d hd
    rcases List.mem_cons.mp hd with rfl | hd
    · exact he
    · exact ih hrest d hd

private theorem partitionsOf_createPartition (h : Partition.InOrder s.partitions) (owner tenant : TenantId)
    (asOf : Instant) :
    (s.createPartition owner asOf).partitionsOf tenant =
      if owner = tenant then Partition.insert (.ofInstant owner asOf) (s.partitionsOf tenant)
      else s.partitionsOf tenant :=
  Partition.filter_insert h (.ofInstant owner asOf) tenant

end SearchIndex

namespace Pipeline

/-! ## The record store -/

theorem within_createRecords (ctx : Context) (events : List Event) :
    Within ctx.tenant (createRecords ctx events) where
  confined tenant h p q hpq := by
    rw [outcome_createRecords, outcome_createRecords]
    rcases RecordStore.create_congr h hpq.rows hpq.writable events with
      ⟨f, hp, hq⟩ | ⟨u, v, hp, hq, huv⟩
    · rw [hp, hq]
      exact ⟨rfl, hpq⟩
    · rw [hp, hq]
      exact ⟨rfl, hpq.of_rows huv⟩
  unseen tenant h p hp := by
    rw [outcome_createRecords]
    cases hcreate : p.records.create ctx events with
    | error f => exact .refl hp
    | ok records =>
      obtain ⟨owner, hctx, -, howner, rows, hrows, rfl⟩ := RecordStore.create_eq_ok.mp hcreate
      have hother : ∀ e ∈ events, e.tenant ≠ tenant := by
        rintro e he rfl
        exact h (howner e he ▸ hctx)
      have hsame := EventTable.ofTenant_putAll_of_ne (t := p.records.rows) hother
      rw [← (EventTable.addAll_eq_ok hrows).1] at hsame
      exact (Alike.refl hp).of_rows hsame.symm

theorem within_getRecord (ctx : Context) (id : String) : Within ctx.tenant (getRecord ctx id) := by
  apply Within.of_read fun p hp => outcome_getRecord hp ctx id
  intro tenant h p q hpq
  simp only [RecordStore.get, Context.requireTenant_eq_ok.mpr h, Failure.ok_bind]
  rw [EventTable.get?_congr hpq.rows]

theorem within_listRecords (ctx : Context) (f : Filter) : Within ctx.tenant (listRecords ctx f) := by
  apply Within.of_read fun p hp => outcome_listRecords hp ctx f
  intro tenant h p q hpq
  simp only [RecordStore.list, Context.requireTenant_eq_ok.mpr h, Failure.ok_bind]
  rw [hpq.rows]

theorem within_deleteRecord (ctx : Context) (id : String) : Within ctx.tenant (deleteRecord ctx id) where
  confined tenant h p q hpq := by
    rw [outcome_deleteRecord hpq.left.up, outcome_deleteRecord hpq.right.up]
    simp only [RecordStore.delete, Context.requireTenant_eq_ok.mpr h, Failure.ok_bind,
      RecordStore.checkWritable_congr hpq.writable, EventTable.has_congr hpq.rows]
    cases q.records.checkWritable with
    | error f => exact ⟨rfl, hpq⟩
    | ok _ => exact ⟨rfl, hpq.of_rows (EventTable.ofTenant_filter_congr hpq.rows _)⟩
  unseen tenant h p hp := by
    rw [outcome_deleteRecord hp.up]
    cases hdelete : p.records.delete ctx id with
    | error f => exact .refl hp
    | ok result =>
      simp only [RecordStore.delete, Failure.bind_eq_ok, Context.requireTenant_eq_ok] at hdelete
      obtain ⟨owner, hctx, _, -, hdelete⟩ := hdelete
      cases hdelete
      have hne : owner ≠ tenant := fun heq => h (heq ▸ hctx)
      exact (Alike.refl hp).of_rows (EventTable.ofTenant_erase_of_ne hne id).symm

theorem within_purgeRecords (ctx : Context) (cutoff : Instant) :
    Within ctx.tenant (purgeRecords ctx cutoff) where
  confined tenant h p q hpq := by
    rw [outcome_purgeRecords hpq.left.up, outcome_purgeRecords hpq.right.up]
    simp only [RecordStore.purge, Context.requireTenant_eq_ok.mpr h, Failure.ok_bind,
      RecordStore.checkWritable_congr hpq.writable, RecordStore.countP_isStale, hpq.rows]
    cases q.records.checkWritable with
    | error f => exact ⟨rfl, hpq⟩
    | ok _ => exact ⟨rfl, hpq.of_rows (EventTable.ofTenant_filter_congr hpq.rows _)⟩
  unseen tenant h p hp := by
    rw [outcome_purgeRecords hp.up]
    cases hpurge : p.records.purge ctx cutoff with
    | error f => exact .refl hp
    | ok result =>
      simp only [RecordStore.purge, Failure.bind_eq_ok, Context.requireTenant_eq_ok] at hpurge
      obtain ⟨owner, hctx, _, -, hpurge⟩ := hpurge
      cases hpurge
      refine (Alike.refl hp).of_rows (EventTable.ofTenant_filter_of_pass ?_).symm
      rintro e rfl
      have hne : e.tenant ≠ owner := fun heq => h (heq ▸ hctx)
      simp [RecordStore.isStale, hne]

/-! ## The search index -/

theorem within_createPartition (owner : TenantId) (asOf : Instant) :
    Within (some owner) (createPartition owner asOf) where
  confined tenant _ p q hpq := by
    rw [outcome_createPartition hpq.left.up, outcome_createPartition hpq.right.up]
    refine ⟨rfl, hpq.of_partitions (hpq.left.inOrder.insert _) (hpq.right.inOrder.insert _) ?_⟩
    have hp := SearchIndex.partitionsOf_createPartition hpq.left.inOrder owner tenant asOf
    have hq := SearchIndex.partitionsOf_createPartition hpq.right.inOrder owner tenant asOf
    rw [hpq.partitions, ← hq] at hp
    exact hp
  unseen tenant h p hp := by
    rw [outcome_createPartition hp.up]
    refine (Alike.refl hp).of_partitions hp.inOrder (hp.inOrder.insert _) ?_
    have hsame := SearchIndex.partitionsOf_createPartition hp.inOrder owner tenant asOf
    rw [if_neg fun heq => h (congrArg some heq)] at hsame
    exact hsame.symm

theorem within_putDocuments (seam : Seam) (ctx : Context) (events : List Event) :
    Within ctx.tenant (putDocuments seam ctx events) where
  confined tenant h p q hpq := by
    rw [outcome_putDocuments hpq.left.up, outcome_putDocuments hpq.right.up]
    simp only [SearchIndex.put, Context.requireTenant_eq_ok.mpr h, Failure.ok_bind,
      SearchIndex.checkEvent_congr hpq.partitions]
    cases events.forM (q.index.checkEvent tenant) with
    | error f => exact ⟨rfl, hpq⟩
    | ok _ => exact ⟨rfl, hpq.of_documents (EventTable.ofTenant_putAll_congr hpq.documents events)⟩
  unseen tenant h p hp := by
    rw [outcome_putDocuments hp.up]
    cases hput : p.index.put ctx events with
    | error f => exact .refl hp
    | ok index =>
      simp only [SearchIndex.put, Failure.bind_eq_ok, Context.requireTenant_eq_ok] at hput
      obtain ⟨owner, hctx, _, hcheck, hput⟩ := hput
      cases hput
      have hother : ∀ e ∈ events, e.tenant ≠ tenant := by
        rintro e he rfl
        exact h (SearchIndex.tenant_of_checkEvents hcheck e he ▸ hctx)
      exact (Alike.refl hp).of_documents (EventTable.ofTenant_putAll_of_ne hother).symm

theorem within_deleteDocument (ctx : Context) (id : String) :
    Within ctx.tenant (deleteDocument ctx id) where
  confined tenant h p q hpq := by
    rw [outcome_deleteDocument hpq.left.up, outcome_deleteDocument hpq.right.up]
    simp only [SearchIndex.delete, Context.requireTenant_eq_ok.mpr h, Failure.ok_bind]
    exact ⟨rfl, hpq.of_documents (EventTable.ofTenant_filter_congr hpq.documents _)⟩
  unseen tenant h p hp := by
    rw [outcome_deleteDocument hp.up]
    cases hdelete : p.index.delete ctx id with
    | error f => exact .refl hp
    | ok index =>
      simp only [SearchIndex.delete, Failure.bind_eq_ok, Context.requireTenant_eq_ok] at hdelete
      obtain ⟨owner, hctx, hdelete⟩ := hdelete
      cases hdelete
      have hne : owner ≠ tenant := fun heq => h (heq ▸ hctx)
      exact (Alike.refl hp).of_documents (EventTable.ofTenant_erase_of_ne hne id).symm

theorem within_searchDocuments (ctx : Context) (f : Filter) :
    Within ctx.tenant (searchDocuments ctx f) := by
  apply Within.of_read fun p hp => outcome_searchDocuments hp ctx f
  intro tenant h p q hpq
  simp only [SearchIndex.search, Context.requireTenant_eq_ok.mpr h, Failure.ok_bind]
  rw [hpq.documents]

end Pipeline

end AuditTrail
