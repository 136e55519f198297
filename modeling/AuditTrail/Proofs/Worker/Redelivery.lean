import AuditTrail.Proofs.Filter.Select
import AuditTrail.Proofs.Worker.Applied
import Mathlib.Data.List.Pairwise
/-!
# Redelivery

A message may be delivered more than once, and messages in any order. When no two of them are about one event,
the index that they leave behind depends only on which of them were applied.
-/

namespace AuditTrail

/-! ## What messages are about -/

namespace EventTable

variable {events : List Event} {key : TenantId × String} {e : Event}

private theorem lastOf_eq_none : lastOf events key = none ↔ key ∉ events.map Event.key := by
  simp [lastOf]

end EventTable

namespace Message

variable {m : Message} {ms ns : List Message} {key : TenantId × String}

/-- The keys of the events that a message is about. -/
def names (m : Message) : List (TenantId × String) :=
  match m.kind with
  | .delete => [(m.tenant, m.eventId.getD "")]
  | _ => m.events.map Event.key

private theorem names_of_ne_delete (h : m.kind ≠ .delete) : m.names = m.events.map Event.key := by
  unfold names
  split
  · rename_i hkind
    exact absurd hkind h
  · rfl

private theorem tells_eq_none : m.tells key = none ↔ key ∉ m.names := by
  unfold tells names
  cases m.kind with
  | delete => simp
  | index => simp only [Option.map_eq_none_iff, EventTable.lastOf_eq_none]
  | bulkIndex => simp only [Option.map_eq_none_iff, EventTable.lastOf_eq_none]

/-- Different ones of some messages are about different events. -/
def Apart (ms : List Message) : Prop := ∀ m ∈ ms, ∀ n ∈ ms, m ≠ n → m.names.Disjoint n.names

/-- Among messages that are apart only one has a say about a key. -/
private theorem told_of_mem (hapart : Apart ms) (hm : m ∈ ms) (hkey : key ∈ m.names) : told ms key = m.tells key := by
  cases htold : told ms key with
  | none =>
    have hnone := List.findSome?_eq_none_iff.mp htold m (List.mem_reverse.mpr hm)
    exact absurd hkey (tells_eq_none.mp hnone)
  | some v =>
    obtain ⟨n, hn, htells⟩ := List.exists_of_findSome?_eq_some htold
    have hnamed : key ∈ n.names := by
      by_contra hother
      rw [tells_eq_none.mpr hother] at htells
      cases htells
    have hsame : m = n := by
      by_contra hne
      exact hapart m hm n (List.mem_reverse.mp hn) hne hkey hnamed
    rw [hsame, htells]

private theorem told_eq_none (h : ∀ m ∈ ms, key ∉ m.names) : told ms key = none := by
  apply List.findSome?_eq_none_iff.mpr
  intro m hm
  exact tells_eq_none.mpr (h m (List.mem_reverse.mp hm))

private theorem told_eq_of_mem_iff (hapart : Apart ms) (h : ∀ m, m ∈ ms ↔ m ∈ ns) : told ms key = told ns key := by
  have hapart' : Apart ns := by
    intro m hm n hn
    exact hapart m ((h m).mpr hm) n ((h n).mpr hn)
  by_cases hkey : ∃ m ∈ ms, key ∈ m.names
  · obtain ⟨m, hm, hkey⟩ := hkey
    rw [told_of_mem hapart hm hkey, told_of_mem hapart' ((h m).mp hm) hkey]
  · have hnone : ∀ m ∈ ms, key ∉ m.names := by simpa using hkey
    rw [told_eq_none hnone, told_eq_none fun m hm => hnone m ((h m).mpr hm)]

end Message

/-! ## Indexes -/

namespace SearchIndex

variable {s t : SearchIndex} {ms ns : List Message}

/-- Two indexes hold the same documents, in whatever order, and have the same partitions. -/
structure Same (s t : SearchIndex) : Prop where
  documents : ∀ tenant id, s.documents.get? tenant id = t.documents.get? tenant id
  partitions : ∀ x, x ∈ s.partitions ↔ x ∈ t.partitions

/-- The index after what sound messages ask for, one after the other. -/
def absorbAll (s : SearchIndex) (ms : List Message) : SearchIndex := ms.foldl absorb s

private theorem documents_absorbAll : (s.absorbAll ms).documents = s.documents.absorbAll ms := by
  induction ms generalizing s with
  | nil => rfl
  | cons m rest ih => exact ih

private theorem mem_partitions_absorbAll {x : Partition} :
    x ∈ (s.absorbAll ms).partitions ↔ (∃ m ∈ ms, x ∈ m.partitions) ∨ x ∈ s.partitions := by
  induction ms generalizing s with
  | nil => simp [absorbAll]
  | cons m rest ih =>
    have hrest : x ∈ (s.absorbAll (m :: rest)).partitions ↔
        (∃ n ∈ rest, x ∈ n.partitions) ∨ x ∈ (s.absorb m).partitions := ih
    have hhead : x ∈ (s.absorb m).partitions ↔ x ∈ m.partitions ∨ x ∈ s.partitions := Partition.mem_insertAll
    rw [hrest, hhead, List.exists_mem_cons_iff, or_assoc, or_left_comm]

private theorem absorbAll_same (hapart : Message.Apart ms) (h : ∀ m, m ∈ ms ↔ m ∈ ns) :
    (s.absorbAll ms).Same (s.absorbAll ns) := by
  constructor
  · intro tenant id
    rw [documents_absorbAll, documents_absorbAll, EventTable.get?_absorbAll_from,
      EventTable.get?_absorbAll_from, Message.told_eq_of_mem_iff hapart h]
  · intro x
    simp only [mem_partitions_absorbAll, h]

private theorem inOrder_absorbAll (hs : Partition.InOrder s.partitions) :
    Partition.InOrder (s.absorbAll ms).partitions := by
  induction ms generalizing s with
  | nil => exact hs
  | cons m rest ih => exact ih (s := s.absorb m) (hs.insertAll m.partitions)

private theorem Same.search_eq (h : s.Same t) (ctx : Context) (f : Filter) : s.search ctx f = t.search ctx f := by
  have hperm (tenant : TenantId) : (s.documents.ofTenant tenant).Perm (t.documents.ofTenant tenant) :=
    EventTable.ofTenant_perm_iff.mpr (h.documents tenant)
  have hlist := search_eq_list (r := ⟨t.documents, true⟩) hperm ctx f
  exact hlist.trans (search_eq_list (r := ⟨t.documents, true⟩) (fun _ => .refl _) ctx f).symm

private theorem Same.partitions_eq (h : s.Same t) (hs : Partition.InOrder s.partitions)
    (ht : Partition.InOrder t.partitions) : s.partitions = t.partitions := by
  have hnodup {ps : List Partition} (hps : Partition.InOrder ps) : ps.Nodup := by
    apply hps.imp
    rintro a b hab rfl
    rw [Partition.precedes_irrefl] at hab
    cases hab
  have hperm : s.partitions.Perm t.partitions :=
    (List.perm_ext_iff_of_nodup (hnodup hs) (hnodup ht)).mpr h.partitions
  apply hperm.eq_of_pairwise _ hs ht
  intro a b _ _ hab hba
  have hself := Partition.precedes_trans hab hba
  rw [Partition.precedes_irrefl] at hself
  cases hself

end SearchIndex

/-! ## Applied messages -/

namespace Pipeline

variable {p : Pipeline} {ms ns : List Message}

private theorem outcome_applyAll (hup : p.outages = .empty) (hms : ∀ m ∈ ms, m.check = .ok m) :
    ∃ metrics, outcome (ms.forM applyMessage) p = (.ok (), { p with index := p.index.absorbAll ms, metrics }) := by
  induction ms generalizing p with
  | nil => exact ⟨p.metrics, rfl⟩
  | cons m rest ih =>
    rw [List.forM_eq_forM] at ih ⊢
    rw [List.forM_cons, outcome_bind, outcome_applyMessage hup (hms m (by simp)), proceed_ok]
    exact ih hup fun n hn => hms n (by simp [hn])

private theorem index_of_applied (hup : p.outages = .empty) (hms : ∀ m ∈ ms, m.check = .ok m) {q : Pipeline}
    (hq : outcome (ms.forM applyMessage) p = (.ok (), q)) : q.index = p.index.absorbAll ms := by
  obtain ⟨metrics, hrun⟩ := outcome_applyAll hup hms
  rw [hrun, Prod.mk.injEq] at hq
  rw [← hq.2]

/-- Messages that are applied one after the other, in either of two courses, all go through and leave the same
index. -/
def EndAlike (p : Pipeline) (ms ns : List Message) : Prop :=
  ∃ q r, outcome (ms.forM applyMessage) p = (.ok (), q) ∧ outcome (ns.forM applyMessage) p = (.ok (), r) ∧
    q.index.Same r.index

private theorem endAlike_of_mem_iff (hup : p.outages = .empty) (hms : ∀ m ∈ ms, m.check = .ok m)
    (hapart : Message.Apart ms) (h : ∀ m, m ∈ ms ↔ m ∈ ns) : p.EndAlike ms ns := by
  obtain ⟨metrics, hrun⟩ := outcome_applyAll hup hms
  obtain ⟨metrics', hrun'⟩ := outcome_applyAll hup fun n hn => hms n ((h n).mpr hn)
  exact ⟨_, _, hrun, hrun', SearchIndex.absorbAll_same hapart h⟩

/-- After either course of messages that are apart, every search finds the same, and the partitions are listed in
the same order. -/
theorem reads_of_mem_iff (hup : p.outages = .empty) (hms : ∀ m ∈ ms, m.check = .ok m) (hapart : Message.Apart ms)
    (h : ∀ m, m ∈ ms ↔ m ∈ ns) (hs : Partition.InOrder p.index.partitions) :
    ∃ q r, outcome (ms.forM applyMessage) p = (.ok (), q) ∧ outcome (ns.forM applyMessage) p = (.ok (), r) ∧
      q.index.partitions = r.index.partitions ∧ ∀ ctx f, q.index.search ctx f = r.index.search ctx f := by
  obtain ⟨q, r, hq, hr, hsame⟩ := endAlike_of_mem_iff hup hms hapart h
  have hqs : Partition.InOrder q.index.partitions := by
    rw [index_of_applied hup hms hq]
    exact SearchIndex.inOrder_absorbAll hs
  have hrs : Partition.InOrder r.index.partitions := by
    rw [index_of_applied hup (fun n hn => hms n ((h n).mpr hn)) hr]
    exact SearchIndex.inOrder_absorbAll hs
  exact ⟨q, r, hq, hr, hsame.partitions_eq hqs hrs, hsame.search_eq⟩

/-- What there is of the events of messages that are apart after these were applied: of each event that a message
puts into the index one document, which is the last that the message has under its key, and none of an event
that a message takes out. -/
private theorem documents_of_applied (hup : p.outages = .empty) (hms : ∀ m ∈ ms, m.check = .ok m)
    (hapart : Message.Apart ms) {q : Pipeline} (hq : outcome (ms.forM applyMessage) p = (.ok (), q))
    {m : Message} (hm : m ∈ ms) :
    (m.kind ≠ .delete → ∀ e ∈ m.events, ∃ d, EventTable.lastOf m.events e.key = some d ∧
      (q.index.documents.events.filter fun x => x.key = e.key) = [d]) ∧
    (m.kind = .delete → q.index.documents.get? m.tenant (m.eventId.getD "") = none) := by
  have hfound {tenant : TenantId} {id : String} (hkey : (tenant, id) ∈ m.names) :
      q.index.documents.get? tenant id =
        (m.tells (tenant, id)).getD (p.index.documents.get? tenant id) := by
    rw [index_of_applied hup hms hq, SearchIndex.documents_absorbAll, EventTable.get?_absorbAll_from, Message.told_of_mem hapart hm hkey]
  constructor
  · intro hkind e he
    have hkey : e.key ∈ m.events.map Event.key := List.mem_map_of_mem he
    obtain ⟨d, hd⟩ := Option.ne_none_iff_exists'.mp fun hnone => EventTable.lastOf_eq_none.mp hnone hkey
    refine ⟨d, hd, EventTable.filter_key_of_get? ?_⟩
    have htells : m.tells (e.tenant, e.id) = some (some d) := by
      rw [Message.tells_of_ne_delete hkind]
      exact congrArg (Option.map some) hd
    rw [hfound (by rw [Message.names_of_ne_delete hkind]; exact hkey), htells, Option.getD_some]
  · intro hkind
    have hnames : (m.tenant, m.eventId.getD "") ∈ m.names := by simp [Message.names, hkind]
    rw [hfound hnames, Message.tells, hkind]
    simp

/-- Redelivery and order do not matter. A message that is applied twice leaves the index as if it was applied
once, two messages about different events may be applied in either order, and some messages that are about
different events leave the same index in whatever order they come and however often each of them does: with one
document of each event that one of them puts into it, and none of those that are taken out. -/
theorem redelivery_changes_nothing (hup : p.outages = .empty) :
    (∀ m : Message, m.check = .ok m → p.EndAlike [m, m] [m]) ∧
    (∀ m n : Message, m.check = .ok m → n.check = .ok n → m.names.Disjoint n.names → p.EndAlike [m, n] [n, m]) ∧
    ∀ family deliveries : List Message, (∀ m ∈ family, m.check = .ok m) →
      family.Pairwise (fun m n => m.names.Disjoint n.names) → (∀ m, m ∈ deliveries ↔ m ∈ family) →
      p.EndAlike deliveries family ∧
      ∀ q, outcome (deliveries.forM applyMessage) p = (.ok (), q) → ∀ m ∈ family,
        (m.kind ≠ .delete → ∀ e ∈ m.events, ∃ d, EventTable.lastOf m.events e.key = some d ∧
          (q.index.documents.events.filter fun x => x.key = e.key) = [d]) ∧
        (m.kind = .delete → q.index.documents.get? m.tenant (m.eventId.getD "") = none) := by
  have hfamily (family deliveries : List Message) (hsound : ∀ m ∈ family, m.check = .ok m)
      (hpairs : family.Pairwise fun m n => m.names.Disjoint n.names)
      (hmem : ∀ m, m ∈ deliveries ↔ m ∈ family) :
      (∀ m ∈ deliveries, m.check = .ok m) ∧ Message.Apart deliveries := by
    have : Std.Symm fun m n : Message => m.names.Disjoint n.names := ⟨fun _ _ h _ hm hn => h hn hm⟩
    refine ⟨fun m hm => hsound m ((hmem m).mp hm), fun m hm n hn hne => ?_⟩
    exact hpairs.forall ((hmem m).mp hm) ((hmem n).mp hn) hne
  refine ⟨?_, ?_, ?_⟩
  · intro m hm
    obtain ⟨hsound, hapart⟩ := hfamily [m] [m, m] (by simpa using hm) (by simp) (by simp)
    exact endAlike_of_mem_iff hup hsound hapart (by simp)
  · intro m n hm hn hdisjoint
    obtain ⟨hsound, hapart⟩ := hfamily [m, n] [m, n] (by simp [hm, hn]) (by simpa using hdisjoint) (by simp)
    exact endAlike_of_mem_iff hup hsound hapart (by simp [or_comm])
  · intro family deliveries hsound hpairs hmem
    obtain ⟨hsound, hapart⟩ := hfamily family deliveries hsound hpairs hmem
    refine ⟨endAlike_of_mem_iff hup hsound hapart hmem, fun q hq m hm => ?_⟩
    exact documents_of_applied hup hsound hapart hq ((hmem m).mpr hm)

/-- A batch with one event twice and the deletion of another event come in disorder and more than once. -/
theorem signIns_redelivered :
    let batch : Message := ⟨.bulkIndex, .acme, [.signIn "e1", .signIn "e1"], none, .epoch⟩
    let gone := Message.delete .acme "e2" .epoch
    let indexed : Pipeline := { new 30000 (fun _ => "") with index := ⟨EventTable.empty.put (.signIn "e2"), []⟩ }
    ∃ q, outcome ([gone, batch, gone, batch, batch].forM applyMessage) indexed = (.ok (), q) ∧
      (q.index.documents.events.filter fun x => x.key = (.acme, "e1")) = [.signIn "e1"] ∧
      q.index.documents.get? .acme "e2" = none := by
  intro batch gone indexed
  have hsound : ∀ m ∈ [batch, gone], m.check = .ok m := by
    intro m hm
    rcases List.mem_pair.mp hm with rfl | rfl
    · rfl
    · rfl
  have hpairs : [batch, gone].Pairwise fun m n => m.names.Disjoint n.names := by
    simp [batch, gone, Message.names, Message.delete, Event.key, Event.signIn]
  obtain ⟨⟨q, -, hq, -⟩, hdocuments⟩ := (redelivery_changes_nothing (p := indexed) rfl).2.2 [batch, gone]
    [gone, batch, gone, batch, batch] hsound hpairs (by simp; tauto)
  have hbatch := (hdocuments q hq batch (by simp)).1 (by decide) (.signIn "e1") (by simp [batch])
  obtain ⟨d, hd, hone⟩ := hbatch
  cases hd
  exact ⟨q, hq, hone, (hdocuments q hq gone (by simp)).2 rfl⟩

end Pipeline

end AuditTrail
