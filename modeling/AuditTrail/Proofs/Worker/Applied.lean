import AuditTrail.Proofs.Index.Partitions
import AuditTrail.Proofs.Pipeline.Writes
import AuditTrail.Worker.Cycle
/-!
# Applied messages

A worker that applies a sound message changes nothing but the search index and the counters, and without
outages it does not fail: the partitions of the events are made first, so that the index takes the events.
-/

namespace AuditTrail

namespace Message

variable {m n : Message} {body : String}

theorem check_eq_ok : m.check = .ok n ↔ m.problem? = none ∧ m = n := by
  unfold check
  cases m.problem? <;> simp

theorem check_of_decode (h : decode body = .ok m) : m.check = .ok m := by
  unfold decode at h
  cases hread : read.ofText body with
  | none => simp [hread] at h
  | some k =>
    rw [hread, Option.elim_some] at h
    obtain ⟨-, rfl⟩ := check_eq_ok.mp h
    exact h

/-- What a message has to be: about one event, about some, or with the identifier of one to take out, and
with no event of another tenant. -/
structure Sound (m : Message) : Prop where
  single : m.kind = .index → ∃ e, m.events = [e]
  nonempty : m.kind = .bulkIndex → m.events ≠ []
  identified : m.kind = .delete → ∃ id, m.eventId = some id ∧ id ≠ ""
  own : ∀ e ∈ m.events, e.tenant = m.tenant

private theorem shapeProblem?_eq_none : m.shapeProblem? = none ↔
    (m.kind = .index → ∃ e, m.events = [e]) ∧ (m.kind = .bulkIndex → m.events ≠ []) ∧
      (m.kind = .delete → ∃ id, m.eventId = some id ∧ id ≠ "") := by
  unfold shapeProblem?
  cases m.kind with
  | index => simp [List.length_eq_one_iff]
  | bulkIndex => simp
  | delete => cases m.eventId <;> simp

theorem check_iff_sound : m.check = .ok m ↔ m.Sound := by
  have hown : (m.events.find? fun e => e.tenant ≠ m.tenant) = none ↔ ∀ e ∈ m.events, e.tenant = m.tenant := by
    simp [List.find?_eq_none]
  have hproblem : m.problem? = none ↔ m.shapeProblem? = none ∧ ∀ e ∈ m.events, e.tenant = m.tenant := by
    unfold problem?
    cases m.shapeProblem? with
    | some problem => simp
    | none => rw [Option.map_eq_none_iff, hown]; simp
  rw [check_eq_ok, hproblem, shapeProblem?_eq_none]
  constructor
  · rintro ⟨⟨⟨hsingle, hnonempty, hidentified⟩, hown⟩, -⟩
    exact ⟨hsingle, hnonempty, hidentified, hown⟩
  · rintro ⟨hsingle, hnonempty, hidentified, hown⟩
    exact ⟨⟨⟨hsingle, hnonempty, hidentified⟩, hown⟩, rfl⟩

theorem tenant_of_check (h : m.check = .ok m) {e : Event} (he : e ∈ m.events) : e.tenant = m.tenant :=
  (check_iff_sound.mp h).own e he

theorem events_ne_nil_of_check (h : m.check = .ok m) (hkind : m.kind ≠ .delete) : m.events ≠ [] := by
  have hsound := check_iff_sound.mp h
  cases hk : m.kind with
  | index =>
    obtain ⟨e, he⟩ := hsound.single hk
    simp [he]
  | bulkIndex => exact hsound.nonempty hk
  | delete => exact absurd hk hkind

theorem action_of_check (h : m.check = .ok m) :
    m.action = .ok (if m.kind = .delete then .delete (m.eventId.getD "") else .upsert m.events) := by
  rw [action, h, Failure.ok_bind]
  cases m.kind <;> simp

/-- The partitions that the events to be put into the index fall into. -/
def partitions (m : Message) : List Partition :=
  if m.kind = .delete then [] else Partition.covering m.tenant m.events

theorem mem_partitions {p : Partition} :
    p ∈ m.partitions ↔ m.kind ≠ .delete ∧ ∃ e ∈ m.events, .ofInstant m.tenant e.timestamp = p := by
  unfold partitions
  split
  · rename_i hkind
    simp [hkind]
  · rename_i hkind
    simp [hkind, Partition.mem_covering]

theorem tenant_of_mem_partitions {p : Partition} (h : p ∈ m.partitions) : p.tenant = m.tenant := by
  obtain ⟨-, e, -, rfl⟩ := mem_partitions.mp h
  rfl

end Message

namespace SearchIndex

/-- The index with some partitions made. -/
def cover (s : SearchIndex) (partitions : List Partition) : SearchIndex :=
  ⟨s.documents, Partition.insertAll partitions s.partitions⟩

/-- The index after what a sound message asks for. -/
def absorb (s : SearchIndex) (m : Message) : SearchIndex :=
  ⟨s.documents.absorb m, Partition.insertAll m.partitions s.partitions⟩

private theorem put_eq_ok {s : SearchIndex} {ctx : Context} {tenant : TenantId} {events : List Event}
    (hctx : ctx.tenant = some tenant)
    (hevents : ∀ e ∈ events, e.tenant = tenant ∧ .ofInstant tenant e.timestamp ∈ s.partitions) :
    s.put ctx events = .ok { s with documents := s.documents.putAll events } := by
  have hchecks : events.forM (s.checkEvent tenant) = .ok () := by
    clear hctx
    induction events with
    | nil => rfl
    | cons e rest ih =>
      obtain ⟨htenant, hthere⟩ := hevents e (by simp)
      have hcheck : s.checkEvent tenant e = .ok () := by simp [checkEvent, htenant, hthere]
      rw [List.forM_eq_forM] at ih ⊢
      rw [List.forM_cons, hcheck, Failure.ok_bind]
      exact ih fun d hd => hevents d (by simp [hd])
  rw [put, Context.requireTenant_eq_ok.mpr hctx, Failure.ok_bind, hchecks]
  rfl

end SearchIndex

namespace Pipeline

variable {p : Pipeline} {m : Message}

private theorem outcome_makePartition (h : p.outages = .empty) (tenant : TenantId) (t : Instant) :
    outcome (indexTarget.createPartition (.ofInstant tenant t)) p =
      (.ok (), { p with index := p.index.cover [.ofInstant tenant t] }) := by
  obtain ⟨start, hstart, hsame⟩ := Partition.start?_ofInstant tenant t
  have hcreate := outcome_createPartition h tenant start
  rw [SearchIndex.createPartition, hsame] at hcreate
  rw [IndexTarget.createPartition, hstart]
  exact hcreate

private theorem outcome_makePartitions (h : p.outages = .empty) {partitions : List Partition}
    (hmonths : ∀ x ∈ partitions, ∃ tenant t, Partition.ofInstant tenant t = x) :
    outcome (partitions.forM indexTarget.createPartition) p =
      (.ok (), { p with index := p.index.cover partitions }) := by
  induction partitions generalizing p with
  | nil => rfl
  | cons x rest ih =>
    obtain ⟨tenant, t, rfl⟩ := hmonths x (by simp)
    rw [List.forM_eq_forM] at ih ⊢
    rw [List.forM_cons, outcome_bind, outcome_makePartition h, proceed_ok]
    exact ih h fun y hy => hmonths y (by simp [hy])

/-- Events are put into the index of a pipeline through one of its seams. -/
theorem put_indexTarget (ctx : Context) (events : List Event) :
    ∃ seam, indexTarget.put ctx events = putDocuments seam ctx events := by
  unfold IndexTarget.put
  split
  · exact ⟨_, rfl⟩
  · exact ⟨_, rfl⟩

private theorem outcome_upsert (h : p.outages = .empty) (hm : m.check = .ok m) (hkind : m.kind ≠ .delete) :
    outcome (indexTarget.project m) p = (.ok m.events.length, { p with index := p.index.absorb m }) := by
  have hmonths : ∀ x ∈ Partition.covering m.tenant m.events, ∃ tenant t, Partition.ofInstant tenant t = x := by
    intro x hx
    obtain ⟨e, -, rfl⟩ := Partition.mem_covering.mp hx
    exact ⟨_, _, rfl⟩
  have hmade := outcome_makePartitions h hmonths
  have hthere : ∀ e ∈ m.events, e.tenant = m.tenant ∧ .ofInstant m.tenant e.timestamp ∈
      (p.index.cover (Partition.covering m.tenant m.events)).partitions := by
    intro e he
    exact ⟨Message.tenant_of_check hm he,
      Partition.mem_insertAll.mpr (.inl (Partition.mem_covering.mpr ⟨e, he, rfl⟩))⟩
  have htaken := SearchIndex.put_eq_ok (show (Context.system m.tenant "").tenant = some m.tenant from rfl) hthere
  obtain ⟨seam, hput⟩ := put_indexTarget (.system m.tenant "") m.events
  have hup : { p with index := p.index.cover (Partition.covering m.tenant m.events) : Pipeline }.outages = .empty := h
  have hdone := outcome_putDocuments hup seam (.system m.tenant "") m.events
  rw [htaken] at hdone
  unfold IndexTarget.project
  simp only [outcome_bind, outcome_lift, Message.action_of_check hm, if_neg hkind, proceed_ok, hmade, hput,
    hdone, outcome_pure]
  rw [SearchIndex.absorb, EventTable.absorb_of_ne_delete hkind, Message.partitions, if_neg hkind]
  rfl

private theorem outcome_remove (h : p.outages = .empty) (hm : m.check = .ok m) (hkind : m.kind = .delete) :
    outcome (indexTarget.project m) p = (.ok 0, { p with index := p.index.absorb m }) := by
  have hdelete := outcome_deleteDocument h (.system m.tenant "") (m.eventId.getD "")
  unfold IndexTarget.project
  simp only [outcome_bind, outcome_lift, Message.action_of_check hm, if_pos hkind, proceed_ok]
  change proceed (outcome (deleteDocument _ _) p) _ = _
  rw [hdelete]
  simp [SearchIndex.delete, SearchIndex.absorb, EventTable.absorb_of_delete hkind, Message.partitions, hkind,
    Partition.insertAll]
  rfl

/-- A sound message that is applied is absorbed by the index, and its events are counted. -/
theorem outcome_applyMessage (h : p.outages = .empty) (hm : m.check = .ok m) :
    outcome (applyMessage m) p =
      (.ok (), { p with
        index := p.index.absorb m
        metrics := p.metrics.add .eventsIndexed (if m.kind = .delete then 0 else m.events.length) }) := by
  have happly : outcome (applyMessage m) p =
      proceed (outcome (indexTarget.project m) p) fun n q =>
        (.ok (), { q with metrics := q.metrics.add .eventsIndexed n }) := by
    unfold applyMessage WorkerBackend.apply
    rw [outcome_bind]
    rfl
  rw [happly]
  by_cases hkind : m.kind = .delete
  · rw [outcome_remove h hm hkind, proceed_ok, if_pos hkind]
  · rw [outcome_upsert h hm hkind, proceed_ok, if_neg hkind]

end Pipeline

end AuditTrail
