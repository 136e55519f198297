import AuditTrail.Index.Basic
import AuditTrail.Proofs.Event.Tables
import AuditTrail.Store
/-!
# Selections do not depend on the order of the events

Events are listed newest first, and those of one instant by their identifiers. So a filter selects the same
page from the same events in any order, if different events have different identifiers, and an index that
holds the events of a record store finds what the store lists.
-/

namespace AuditTrail

namespace Event

theorem precedes_iff (a b : Event) :
    precedes a b = true ↔ b.timestamp.seconds < a.timestamp.seconds ∨
      (a.timestamp.seconds = b.timestamp.seconds ∧ (b.timestamp.nanos < a.timestamp.nanos ∨
        (a.timestamp.nanos = b.timestamp.nanos ∧ a.id < b.id))) := by
  have hlt : b.timestamp < a.timestamp ↔ b.timestamp.seconds < a.timestamp.seconds ∨
      (b.timestamp.seconds = a.timestamp.seconds ∧ b.timestamp.nanos < a.timestamp.nanos) := by
    change Instant.lt b.timestamp a.timestamp = true ↔ _
    simp [Instant.lt]
  have heq : a.timestamp = b.timestamp ↔ a.timestamp.seconds = b.timestamp.seconds ∧
      a.timestamp.nanos = b.timestamp.nanos := by
    constructor
    · intro h
      exact ⟨congrArg _ h, congrArg _ h⟩
    · intro h
      cases ha : a.timestamp
      cases hb : b.timestamp
      simp_all
  simp only [precedes, Bool.or_eq_true, Bool.and_eq_true, decide_eq_true_eq, hlt, heq]
  grind

/-- Whether an event is listed before another one or may be. -/
def notAfter (a b : Event) : Bool := !precedes b a

theorem notAfter_total (a b : Event) : (notAfter a b || notAfter b a) = true := by
  have hab := precedes_iff a b
  have hba := precedes_iff b a
  simp only [notAfter]
  grind

theorem notAfter_trans (a b c : Event) (hab : notAfter a b = true) (hbc : notAfter b c = true) :
    notAfter a c = true := by
  simp only [notAfter, Bool.not_eq_true', ← Bool.not_eq_true, precedes_iff] at *
  grind

theorem id_eq_of_notAfter {a b : Event} (hab : notAfter a b = true) (hba : notAfter b a = true) :
    a.id = b.id := by
  simp only [notAfter, Bool.not_eq_true', ← Bool.not_eq_true, precedes_iff] at *
  grind

private theorem newestFirst_eq_of_perm {events others : List Event} (h : events.Perm others)
    (hids : ∀ a ∈ events, ∀ b ∈ events, a.id = b.id → a = b) :
    newestFirst events = newestFirst others := by
  have hsorted (es : List Event) : (newestFirst es).Pairwise fun a b => notAfter a b = true :=
    List.pairwise_mergeSort notAfter_trans notAfter_total es
  have hperm : (newestFirst events).Perm (newestFirst others) :=
    (List.mergeSort_perm _ _).trans (h.trans (List.mergeSort_perm _ _).symm)
  apply List.Perm.eq_of_pairwise _ (hsorted events) (hsorted others) hperm
  intro a b ha hb hab hba
  have hb := hperm.mem_iff.mpr hb
  exact hids a (List.mem_mergeSort.mp ha) b (List.mem_mergeSort.mp hb) (id_eq_of_notAfter hab hba)

end Event

theorem Filter.mem_of_mem_select {f : Filter} {events : List Event} {e : Event}
    (h : e ∈ f.select events) : e ∈ events := by
  have hlisted := List.mem_of_mem_drop (List.mem_of_mem_take h)
  exact (List.mem_filter.mp (List.mem_mergeSort.mp hlisted)).1

theorem Filter.select_eq_of_perm (f : Filter) {events others : List Event} (h : events.Perm others)
    (hids : ∀ a ∈ events, ∀ b ∈ events, a.id = b.id → a = b) : f.select events = f.select others := by
  rw [select, select, Event.newestFirst_eq_of_perm (h.filter f.admits)]
  intro a ha b hb
  exact hids a (List.mem_filter.mp ha).1 b (List.mem_filter.mp hb).1

theorem EventTable.ids_ofTenant (t : EventTable) (tenant : TenantId) :
    ∀ a ∈ t.ofTenant tenant, ∀ b ∈ t.ofTenant tenant, a.id = b.id → a = b := by
  intro a ha b hb hid
  obtain ⟨ha, hatenant⟩ := mem_ofTenant.mp ha
  obtain ⟨hb, hbtenant⟩ := mem_ofTenant.mp hb
  apply List.inj_on_of_nodup_map t.nodup ha hb
  rw [Event.key, Event.key, hatenant, hbtenant, hid]

/-- An index whose documents are the rows of a store, in any order, finds what the store lists. -/
theorem SearchIndex.search_eq_list {s : SearchIndex} {r : RecordStore}
    (h : ∀ tenant, (s.documents.ofTenant tenant).Perm (r.rows.ofTenant tenant)) (ctx : Context)
    (f : Filter) : s.search ctx f = r.list ctx f := by
  unfold search RecordStore.list
  cases ctx.requireTenant with
  | error e => rfl
  | ok tenant =>
    exact congrArg Except.ok (f.select_eq_of_perm (h tenant) (s.documents.ids_ofTenant tenant))

end AuditTrail
