import AuditTrail.Proofs.Event.Tables
/-!
# The events of one tenant in a table

What an operation on a table does to the events of a tenant depends on the events of that tenant alone, and an
operation about another tenant does nothing to them. Here a tenant sees `EventTable.ofTenant`, in its order.
-/

namespace AuditTrail

namespace EventTable

variable {t u : EventTable} {tenant other : TenantId}

theorem get?_eq_find? (t : EventTable) (tenant : TenantId) (id : String) :
    t.get? tenant id = (t.ofTenant tenant).find? fun e => e.id = id := by
  rw [get?, ofTenant, List.find?_filter]
  simp [Event.key]

theorem get?_congr (h : t.ofTenant tenant = u.ofTenant tenant) (id : String) :
    t.get? tenant id = u.get? tenant id := by
  rw [get?_eq_find?, get?_eq_find?, h]

theorem has_congr (h : t.ofTenant tenant = u.ofTenant tenant) (id : String) :
    t.has tenant id = u.has tenant id := by
  rw [has, has, get?_congr h]

/-! ## Taking out -/

private theorem ofTenant_filter (keep : Event → Bool) (t : EventTable) (tenant : TenantId) :
    (t.filter keep).ofTenant tenant = (t.ofTenant tenant).filter keep := by
  rw [filter, ofTenant, ofTenant, List.filter_filter, List.filter_filter]
  simp only [Bool.and_comm]

theorem ofTenant_filter_congr (h : t.ofTenant tenant = u.ofTenant tenant) (keep : Event → Bool) :
    (t.filter keep).ofTenant tenant = (u.filter keep).ofTenant tenant := by
  rw [ofTenant_filter, ofTenant_filter, h]

/-- A test that all events of a tenant pass takes none of them out. -/
theorem ofTenant_filter_of_pass {keep : Event → Bool} (h : ∀ e, e.tenant = tenant → keep e = true) :
    (t.filter keep).ofTenant tenant = t.ofTenant tenant := by
  rw [ofTenant_filter, List.filter_eq_self]
  intro e he
  exact h e (mem_ofTenant.mp he).2

theorem ofTenant_erase_of_ne (h : other ≠ tenant) (id : String) :
    (t.erase other id).ofTenant tenant = t.ofTenant tenant := by
  apply ofTenant_filter_of_pass
  rintro e rfl
  simp [Event.key, Ne.symm h]

/-! ## Putting -/

private theorem ofTenant_put (t : EventTable) (e : Event) (tenant : TenantId) :
    (t.put e).ofTenant tenant =
      if e.tenant = tenant then putEvent e (t.ofTenant tenant) else t.ofTenant tenant := by
  have hlist (events : List Event) : (putEvent e events).filter (fun d => decide (d.tenant = tenant)) =
      if e.tenant = tenant then putEvent e (events.filter fun d => decide (d.tenant = tenant))
      else events.filter fun d => decide (d.tenant = tenant) := by
    induction events with
    | nil => by_cases ht : e.tenant = tenant <;> simp [putEvent, ht]
    | cons d rest ih =>
      by_cases hkey : d.key = e.key
      · have hd : d.tenant = e.tenant := congrArg Prod.fst hkey
        by_cases ht : e.tenant = tenant <;> simp [putEvent, hkey, hd, ht]
      · by_cases ht : e.tenant = tenant <;> by_cases hd : d.tenant = tenant <;>
          simp [putEvent, hkey, hd, ht, ih]
  exact hlist t.events

private theorem ofTenant_put_congr (h : t.ofTenant tenant = u.ofTenant tenant) (e : Event) :
    (t.put e).ofTenant tenant = (u.put e).ofTenant tenant := by
  rw [ofTenant_put, ofTenant_put, h]

theorem ofTenant_putAll_congr (h : t.ofTenant tenant = u.ofTenant tenant) (events : List Event) :
    (t.putAll events).ofTenant tenant = (u.putAll events).ofTenant tenant := by
  induction events generalizing t u with
  | nil => exact h
  | cons e rest ih => exact ih (ofTenant_put_congr h e)

theorem ofTenant_putAll_of_ne {events : List Event} (h : ∀ e ∈ events, e.tenant ≠ tenant) :
    (t.putAll events).ofTenant tenant = t.ofTenant tenant := by
  induction events generalizing t with
  | nil => rfl
  | cons e rest ih =>
    have hrest : ∀ d ∈ rest, d.tenant ≠ tenant := fun d hd => h d (by simp [hd])
    calc (t.putAll (e :: rest)).ofTenant tenant = (t.put e).ofTenant tenant := ih hrest
      _ = t.ofTenant tenant := by rw [ofTenant_put, if_neg (h e (by simp))]

/-- Whether events of a tenant can be added, and which of them is refused, is for the events of that tenant
to say. -/
theorem addAll_congr {events : List Event} (hevents : ∀ e ∈ events, e.tenant = tenant)
    (h : t.ofTenant tenant = u.ofTenant tenant) :
    (∃ e, addAll events t = .error e ∧ addAll events u = .error e) ∨
      ∃ t' u', addAll events t = .ok t' ∧ addAll events u = .ok u' ∧
        t'.ofTenant tenant = u'.ofTenant tenant := by
  induction events generalizing t u with
  | nil => exact .inr ⟨t, u, rfl, rfl, h⟩
  | cons e rest ih =>
    have he : e.tenant = tenant := hevents e (by simp)
    have hhas : t.has e.tenant e.id = u.has e.tenant e.id := by
      rw [he]
      exact has_congr h e.id
    unfold addAll
    rw [hhas]
    split
    · exact .inl ⟨e, rfl, rfl⟩
    · exact ih (fun d hd => hevents d (by simp [hd])) (ofTenant_put_congr h e)

end EventTable

end AuditTrail
