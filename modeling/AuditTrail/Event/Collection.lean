import AuditTrail.Event.Basic
/-!
# Collections of events

A collection holds events of any tenants. Within a tenant an identifier is used once, and an event is
found under its own tenant and identifier and no other.
-/

namespace AuditTrail

def Event.key (e : Event) : TenantId × String := (e.tenant, e.id)

structure EventTable where
  events : List Event
  nodup : (events.map Event.key).Nodup

namespace EventTable

def empty : EventTable := ⟨[], List.nodup_nil⟩

instance : Inhabited EventTable := ⟨empty⟩

/-- The event of a tenant with an identifier. -/
def get? (t : EventTable) (tenant : TenantId) (id : String) : Option Event :=
  t.events.find? fun e => e.key = (tenant, id)

def has (t : EventTable) (tenant : TenantId) (id : String) : Bool := (t.get? tenant id).isSome

def ofTenant (t : EventTable) (tenant : TenantId) : List Event :=
  t.events.filter fun e => e.tenant = tenant

theorem nodup_filter (p : Event → Bool) (t : EventTable) :
    ((t.events.filter p).map Event.key).Nodup :=
  t.nodup.sublist (List.filter_sublist.map _)

def filter (t : EventTable) (p : Event → Bool) : EventTable :=
  ⟨t.events.filter p, t.nodup_filter p⟩

/-- Takes out the event of a tenant with an identifier. -/
def erase (t : EventTable) (tenant : TenantId) (id : String) : EventTable :=
  t.filter fun e => e.key ≠ (tenant, id)

def eraseTenant (t : EventTable) (tenant : TenantId) : EventTable :=
  t.filter fun e => e.tenant ≠ tenant

/-- Puts an event in place of the one with its key, or at the end. -/
def putEvent (e : Event) : List Event → List Event
  | [] => [e]
  | d :: rest => if d.key = e.key then e :: rest else d :: putEvent e rest

private theorem mem_keys_putEvent (e : Event) (es : List Event) (k : TenantId × String) :
    k ∈ (putEvent e es).map Event.key ↔ k = e.key ∨ k ∈ es.map Event.key := by
  induction es with
  | nil => simp [putEvent]
  | cons d rest ih =>
    unfold putEvent
    split
    · rename_i h
      simp [h]
    · simp only [List.map_cons, List.mem_cons, ih]
      grind

private theorem nodup_putEvent (e : Event) (es : List Event) (h : (es.map Event.key).Nodup) :
    ((putEvent e es).map Event.key).Nodup := by
  induction es with
  | nil => simp [putEvent]
  | cons d rest ih =>
    simp only [List.map_cons, List.nodup_cons] at h
    unfold putEvent
    split
    · rename_i hk
      simpa [hk] using h
    · rename_i hk
      simp only [List.map_cons, List.nodup_cons, mem_keys_putEvent, not_or]
      exact ⟨⟨hk, h.1⟩, ih h.2⟩

def put (t : EventTable) (e : Event) : EventTable :=
  ⟨putEvent e t.events, nodup_putEvent e _ t.nodup⟩

def putAll (t : EventTable) (es : List Event) : EventTable := es.foldl put t

/-- Adds events that are not there yet. The first one whose key is taken, by an event of the collection
or by one of the new events before it, is refused and with it all of them. -/
def addAll : List Event → EventTable → Except Event EventTable
  | [], t => .ok t
  | e :: rest, t => if t.has e.tenant e.id then .error e else addAll rest (t.put e)

private theorem find?_putEvent (e : Event) (es : List Event) (k : TenantId × String) :
    (putEvent e es).find? (fun d => d.key = k) =
      if e.key = k then some e else es.find? fun d => d.key = k := by
  induction es with
  | nil => by_cases h : e.key = k <;> simp [putEvent, h]
  | cons d rest ih =>
    unfold putEvent
    split
    · rename_i h
      by_cases hk : e.key = k <;> simp [h, hk]
    · rename_i h
      by_cases hk : e.key = k
      · have : d.key ≠ k := fun hd => h (hd.trans hk.symm)
        simp [ih, this, hk]
      · by_cases hd : d.key = k <;> simp [ih, hd, hk]

theorem get?_put (t : EventTable) (e : Event) (tenant : TenantId) (id : String) :
    (t.put e).get? tenant id = if e.key = (tenant, id) then some e else t.get? tenant id :=
  find?_putEvent e t.events (tenant, id)

end EventTable

end AuditTrail
