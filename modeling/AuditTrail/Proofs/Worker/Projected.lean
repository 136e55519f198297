import AuditTrail.Proofs.Event.Tenants
import AuditTrail.Proofs.Message.RoundTrip
import AuditTrail.Proofs.Worker.Applied
/-!
# What an applied message leaves

A message that could be read is always applied. What it leaves of the index of its tenant is said by
`SearchIndex.Projected`: the partitions that were there and those of the events it puts there, and under
each identifier the last of these events or what was there. A message that takes an event out leaves all
others, and makes no partition, even if it carries events.
-/

namespace AuditTrail

namespace SearchIndex

structure Projected (m : Message) (s t : SearchIndex) : Prop where
  partitions : ∀ x, x ∈ t.partitionsOf m.tenant ↔
    x ∈ s.partitionsOf m.tenant ∨ m.kind ≠ .delete ∧ ∃ e ∈ m.events, .ofInstant m.tenant e.timestamp = x
  inOrder : Partition.InOrder s.partitions → Partition.InOrder t.partitions
  documents : ∀ id, t.documents.get? m.tenant id =
    if m.kind = .delete then if m.eventId = some id then none else s.documents.get? m.tenant id
    else (EventTable.lastOf m.events (m.tenant, id)).or (s.documents.get? m.tenant id)
  others : ∀ other, other ≠ m.tenant →
    t.documents.ofTenant other = s.documents.ofTenant other ∧ t.partitionsOf other = s.partitionsOf other

private theorem ofTenant_absorb_of_ne {m : Message} (hm : m.check = .ok m) {other : TenantId} (h : other ≠ m.tenant)
    (t : EventTable) : (t.absorb m).ofTenant other = t.ofTenant other := by
  by_cases hkind : m.kind = .delete
  · rw [EventTable.absorb_of_delete hkind, EventTable.ofTenant_erase_of_ne (Ne.symm h)]
  · rw [EventTable.absorb_of_ne_delete hkind, EventTable.ofTenant_putAll_of_ne]
    intro e he
    rw [Message.tenant_of_check hm he]
    exact Ne.symm h

private theorem projected_absorb {m : Message} (hm : m.check = .ok m) (s : SearchIndex) :
    Projected m s (s.absorb m) where
  partitions x := by
    simp only [partitionsOf, absorb, List.mem_filter, Partition.mem_insertAll, Message.mem_partitions,
      decide_eq_true_eq]
    constructor
    · rintro ⟨hmade | hold, htenant⟩
      · exact .inr hmade
      · exact .inl ⟨hold, htenant⟩
    · rintro (⟨hold, htenant⟩ | hmade)
      · exact ⟨.inr hold, htenant⟩
      · obtain ⟨hkind, e, he, rfl⟩ := hmade
        exact ⟨.inl ⟨hkind, e, he, rfl⟩, rfl⟩
  inOrder h := h.insertAll m.partitions
  documents id := by
    change (s.documents.absorb m).get? m.tenant id = _
    rw [EventTable.get?_absorb]
    split
    · rename_i hkind
      obtain ⟨deleted, hid, -⟩ := (Message.check_iff_sound.mp hm).identified hkind
      simp only [Message.tells, hkind, hid, Option.getD_some, Prod.mk.injEq, true_and, Option.some_inj]
      by_cases h : id = deleted <;> simp [h, eq_comm]
    · rename_i hkind
      rw [Message.tells_of_ne_delete hkind]
      cases EventTable.lastOf m.events (m.tenant, id) <;> rfl
  others other h := by
    refine ⟨ofTenant_absorb_of_ne hm h _, Partition.filter_insertAll_of_ne ?_ _⟩
    intro p hp
    rw [Message.tenant_of_mem_partitions hp]
    exact Ne.symm h

end SearchIndex

namespace Pipeline

/-- A message that could be read is applied without failure: the month of each of its events begins at an
instant that falls into the event's partition, so every partition that is needed is made. It changes nothing
but the index and the count of the events that were put there. -/
theorem applyMessage_projects {p : Pipeline} (hup : p.outages = .empty) {body : String} {m : Message}
    (h : Message.decode body = .ok m) :
    (∀ e ∈ m.events, ∃ start, (Partition.ofInstant m.tenant e.timestamp).start? = some start ∧
      Partition.ofInstant m.tenant start = Partition.ofInstant m.tenant e.timestamp) ∧
    ∃ index, SearchIndex.Projected m p.index index ∧
      outcome (applyMessage m) p = (.ok (), { p with
        index
        metrics := p.metrics.add .eventsIndexed (if m.kind = .delete then 0 else m.events.length) }) := by
  have hm := Message.check_of_decode h
  refine ⟨fun e _ => Partition.start?_ofInstant m.tenant e.timestamp, _, SearchIndex.projected_absorb hm _, ?_⟩
  exact outcome_applyMessage hup hm

private theorem sound_signIn (id : String) (t : Instant) :
    Event.SoundBlobs { Event.signIn id with timestamp := t } :=
  ⟨by simp [Event.signIn], by simp [Event.signIn], by simp [Event.signIn]⟩

/-- The last leap second that there can be. -/
def lastInstant : Instant := ⟨maxSecond, 1999999999, by decide, by decide, by decide⟩

/-- Two sign-ins of one identifier, the later one as late as can be. -/
def sameSignIns : Message :=
  ⟨.bulkIndex, .acme, [.signIn "e1", { Event.signIn "e1" with timestamp := lastInstant }], none, .epoch⟩

/-- Both months get their partition, and the later sign-in is the document. -/
theorem sameSignIns_projected :
    let p := Pipeline.new 30000 fun _ => ""
    let q := (outcome (applyMessage sameSignIns) p).2
    p.outages = .empty ∧ Message.decode sameSignIns.encode = .ok sameSignIns ∧
      (outcome (applyMessage sameSignIns) p).1 = .ok () ∧
      ⟨.acme, 1970, 1⟩ ∈ q.index.partitionsOf .acme ∧ ⟨.acme, maxYear, 12⟩ ∈ q.index.partitionsOf .acme ∧
      q.index.documents.get? .acme "e1" = some { Event.signIn "e1" with timestamp := lastInstant } := by
  intro p q
  have hup : p.outages = .empty := rfl
  have hdecode : Message.decode sameSignIns.encode = .ok sameSignIns := by
    have hsound : sameSignIns.SoundBlobs := by
      intro e he
      simp only [sameSignIns, List.mem_cons, List.not_mem_nil, or_false] at he
      rcases he with rfl | rfl
      · exact sound_signIn "e1" .epoch
      · exact sound_signIn "e1" lastInstant
    rw [Message.decode_encode hsound, if_pos (by decide)]
    rfl
  obtain ⟨-, index, hprojected, hdone⟩ := applyMessage_projects hup hdecode
  have hq : q.index = index := by
    change (outcome (applyMessage sameSignIns) p).2.index = index
    rw [hdone]
  refine ⟨hup, hdecode, by rw [hdone], ?_, ?_, ?_⟩
  · rw [hq]
    exact (hprojected.partitions _).mpr (.inr ⟨by decide, .signIn "e1", by simp [sameSignIns], by decide⟩)
  · rw [hq]
    exact (hprojected.partitions _).mpr (.inr ⟨by decide, { Event.signIn "e1" with timestamp := lastInstant },
      by simp [sameSignIns], by decide⟩)
  · rw [hq]
    exact hprojected.documents "e1"

/-- A message that takes an event out can carry another event. It is applied, and the month of that event
gets no partition. -/
theorem deletion_makes_no_partition :
    let p := Pipeline.new 30000 fun _ => ""
    let m : Message := ⟨.delete, .acme, [.signIn "e1"], some "e2", .epoch⟩
    let q := (outcome (applyMessage m) p).2
    Message.decode m.encode = .ok m ∧ (outcome (applyMessage m) p).1 = .ok () ∧
      ¬ ∀ x, x ∈ q.index.partitionsOf m.tenant ↔
        x ∈ p.index.partitionsOf m.tenant ∨ ∃ e ∈ m.events, .ofInstant m.tenant e.timestamp = x := by
  intro p m q
  have hsound : m.SoundBlobs := by
    intro e he
    rw [List.mem_singleton] at he
    subst he
    exact sound_signIn "e1" .epoch
  have hcheck : m.check = .ok m := rfl
  have hdecode : Message.decode m.encode = .ok m := by
    rw [Message.decode_encode hsound, if_pos (by decide), hcheck]
  have hdone := outcome_applyMessage (p := p) rfl hcheck
  have hq : q.index = p.index.absorb m := by
    change (outcome (applyMessage m) p).2.index = _
    rw [hdone]
  refine ⟨hdecode, by rw [hdone], ?_⟩
  intro h
  have hmade := (h _).mpr (.inr ⟨.signIn "e1", by simp [m], rfl⟩)
  rw [hq] at hmade
  cases hmade

end Pipeline

end AuditTrail
