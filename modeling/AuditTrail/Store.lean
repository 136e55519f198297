import AuditTrail.Event.Collection
import AuditTrail.Filter.Basic
import AuditTrail.Table
/-!
# Records and the registry of tenants

The record store holds the events of all tenants and is the source of truth. Every operation is for the tenant of its
context. A write that is refused changes nothing. The registry is a table of tenants under their identifiers. A change
that would register a tenant twice, or give one key to two tenants, is refused.
-/

namespace AuditTrail

/-! ## Records -/

structure RecordStore where
  rows : EventTable
  /-- Whether writes succeed. -/
  writable : Bool

namespace RecordStore

def empty : RecordStore := ⟨.empty, true⟩

instance : Inhabited RecordStore := ⟨empty⟩

def checkWritable (s : RecordStore) : Except Failure Unit :=
  if s.writable then .ok () else .error (.storeWrite "record store unavailable")

def checkOwner (tenant : TenantId) (events : List Event) : Except Failure Unit :=
  match events.find? fun e => e.tenant ≠ tenant with
  | some e =>
    .error (.storeWrite
      ("event " ++ e.id ++ " belongs to tenant " ++ e.tenant.name ++ ", not " ++ tenant.name))
  | none => .ok ()

def create (s : RecordStore) (ctx : Context) (events : List Event) : Except Failure RecordStore := do
  let tenant ← ctx.requireTenant
  s.checkWritable
  checkOwner tenant events
  match EventTable.addAll events s.rows with
  | .ok rows => return { s with rows }
  | .error e => .error (.conflict ("audit event " ++ e.id ++ " already exists"))

def get (s : RecordStore) (ctx : Context) (id : String) : Except Failure (Option Event) := do
  let tenant ← ctx.requireTenant
  return s.rows.get? tenant id

/-- The page of the tenant's events that a filter asks for. -/
def list (s : RecordStore) (ctx : Context) (f : Filter) : Except Failure (List Event) := do
  let tenant ← ctx.requireTenant
  return f.select (s.rows.ofTenant tenant)

/-- Takes an event out; whether there was one. -/
def delete (s : RecordStore) (ctx : Context) (id : String) : Except Failure (Bool × RecordStore) := do
  let tenant ← ctx.requireTenant
  s.checkWritable
  return (s.rows.has tenant id, { s with rows := s.rows.erase tenant id })

/-- An event of a tenant from before an instant. -/
def isStale (tenant : TenantId) (cutoff : Instant) (e : Event) : Bool :=
  decide (e.tenant = tenant) && decide (e.timestamp < cutoff)

/-- Takes out the tenant's events from before an instant, and counts them. -/
def purge (s : RecordStore) (ctx : Context) (cutoff : Instant) :
    Except Failure (Nat × RecordStore) := do
  let tenant ← ctx.requireTenant
  s.checkWritable
  return (s.rows.events.countP (isStale tenant cutoff),
    { s with rows := s.rows.filter fun e => !isStale tenant cutoff e })

end RecordStore

/-! ## The registry -/

abbrev Tenants := Table TenantId Tenant

namespace Tenants

def ofKey? (ts : Tenants) (key : String) : Option Tenant := ts.values.find? fun t => t.apiKey = key

/-- Adds a tenant whose identifier and key are free. -/
def create (ts : Tenants) (t : Tenant) : Except Failure Tenants :=
  if ts.contains t.id then .error (.conflict ("tenant '" ++ t.id.name ++ "' already exists"))
  else if ts.values.any fun u => u.apiKey = t.apiKey then .error (.conflict "API key already in use")
  else .ok (ts.insert t.id t)

/-- Replaces a registered tenant; the key has to be free or its own. -/
def update (ts : Tenants) (t : Tenant) : Except Failure Tenants :=
  if ts.values.any fun u => u.id ≠ t.id && u.apiKey = t.apiKey then
    .error (.conflict "API key already in use")
  else if ts.contains t.id then .ok (ts.insert t.id t)
  else .error (.notFound ("tenant " ++ t.id.name))

/-- Takes a tenant out; whether there was one. -/
def delete (ts : Tenants) (id : TenantId) : Bool × Tenants := (ts.contains id, ts.erase id)

/-- Every tenant is held under its own identifier, and no two tenants hold one key. -/
structure Sound (ts : Tenants) : Prop where
  own_id : ∀ id t, ts.get? id = some t → t.id = id
  own_key : ∀ id id' t u, ts.get? id = some t → ts.get? id' = some u → t.apiKey = u.apiKey → id = id'

variable {ts ts' : Tenants} {t u : Tenant}

theorem mem_values : u ∈ ts.values ↔ ∃ id, ts.get? id = some u := by
  simp only [Table.values, Table.get?, Table.find?_eq_some ts.nodup, List.mem_map, Prod.exists,
    exists_eq_right]

/-- Another tenant than this one holds its key. -/
def KeyTaken (ts : Tenants) (t : Tenant) : Prop :=
  ∃ id u, ts.get? id = some u ∧ u.id ≠ t.id ∧ u.apiKey = t.apiKey

private theorem contains_iff {id : TenantId} : ts.contains id = true ↔ ts.get? id ≠ none := Option.isSome_iff_ne_none

private theorem any_values_iff {p : Tenant → Bool} :
    ts.values.any p = true ↔ ∃ id u, ts.get? id = some u ∧ p u = true := by
  simp only [List.any_eq_true, mem_values]
  constructor
  · rintro ⟨u, ⟨id, hu⟩, hp⟩
    exact ⟨id, u, hu, hp⟩
  · rintro ⟨id, u, hu, hp⟩
    exact ⟨u, ⟨id, hu⟩, hp⟩

theorem create_cases (ts : Tenants) (t : Tenant) :
    (ts.get? t.id ≠ none ∧ ∃ text, ts.create t = .error (.conflict text)) ∨
      (ts.get? t.id = none ∧ (∃ id u, ts.get? id = some u ∧ u.apiKey = t.apiKey) ∧
        ∃ text, ts.create t = .error (.conflict text)) ∨
      (ts.get? t.id = none ∧ (∀ id u, ts.get? id = some u → u.apiKey ≠ t.apiKey) ∧
        ts.create t = .ok (ts.insert t.id t)) := by
  unfold create
  split
  · rename_i hthere
    exact .inl ⟨contains_iff.mp hthere, _, rfl⟩
  · rename_i habsent
    rw [contains_iff, Decidable.not_not] at habsent
    split
    · rename_i hheld
      exact .inr (.inl ⟨habsent, by simpa using any_values_iff.mp hheld, _, rfl⟩)
    · rename_i hfree
      refine .inr (.inr ⟨habsent, fun id u hu hkey => hfree (any_values_iff.mpr ⟨id, u, hu, ?_⟩), rfl⟩)
      simpa using hkey

theorem update_cases (ts : Tenants) (t : Tenant) :
    (ts.KeyTaken t ∧ ∃ text, ts.update t = .error (.conflict text)) ∨
      (¬ts.KeyTaken t ∧ ts.get? t.id ≠ none ∧ ts.update t = .ok (ts.insert t.id t)) ∨
      (¬ts.KeyTaken t ∧ ts.get? t.id = none ∧ ∃ text, ts.update t = .error (.notFound text)) := by
  have htaken : ts.values.any (fun u => u.id ≠ t.id && u.apiKey = t.apiKey) = true ↔ ts.KeyTaken t :=
    any_values_iff.trans (by simp [KeyTaken])
  unfold update
  split
  · rename_i hany
    exact .inl ⟨htaken.mp hany, _, rfl⟩
  · rename_i hany
    rw [htaken] at hany
    split
    · rename_i hthere
      exact .inr (.inl ⟨hany, contains_iff.mp hthere, rfl⟩)
    · rename_i habsent
      rw [contains_iff, Decidable.not_not] at habsent
      exact .inr (.inr ⟨hany, habsent, _, rfl⟩)

theorem create_eq_ok (h : ts.create t = .ok ts') :
    ts.get? t.id = none ∧ ¬ts.KeyTaken t ∧ ts' = ts.insert t.id t := by
  obtain ⟨-, text, hfailed⟩ | ⟨-, -, text, hfailed⟩ | ⟨habsent, hfree, hdone⟩ := ts.create_cases t
  · rw [hfailed] at h
    cases h
  · rw [hfailed] at h
    cases h
  · rw [hdone] at h
    cases h
    exact ⟨habsent, fun ⟨id, u, hu, _, hkey⟩ => hfree id u hu hkey, rfl⟩

theorem update_eq_ok (h : ts.update t = .ok ts') : ¬ts.KeyTaken t ∧ ts' = ts.insert t.id t := by
  obtain ⟨-, text, hfailed⟩ | ⟨hfree, -, hdone⟩ | ⟨-, -, text, hfailed⟩ := ts.update_cases t
  · rw [hfailed] at h
    cases h
  · rw [hdone] at h
    cases h
    exact ⟨hfree, rfl⟩
  · rw [hfailed] at h
    cases h

namespace Sound

theorem empty : Sound .empty := ⟨by simp, by simp⟩

/-- A tenant whose key no other one holds can be put under its identifier. -/
theorem insert (h : ts.Sound) (hfree : ¬ts.KeyTaken t) : Sound (ts.insert t.id t) where
  own_id id u hu := by
    rw [Table.get?_insert] at hu
    split at hu
    · rename_i hid
      cases hu
      exact hid
    · exact h.own_id id u hu
  own_key id id' u v hu hv hkey := by
    have hother (id : TenantId) (u : Tenant) (hne : t.id ≠ id) (hu : ts.get? id = some u) :
        u.apiKey ≠ t.apiKey := fun hkey => hfree ⟨id, u, hu, by rw [h.own_id id u hu]; exact hne.symm, hkey⟩
    rw [Table.get?_insert] at hu hv
    split at hu <;> split at hv
    · rename_i hid hid'
      exact hid.symm.trans hid'
    · rename_i hne
      cases hu
      exact absurd hkey.symm (hother id' v hne hv)
    · rename_i hne _
      cases hv
      exact absurd hkey (hother id u hne hu)
    · exact h.own_key id id' u v hu hv hkey

theorem erase (h : ts.Sound) (id : TenantId) : Sound (ts.erase id) where
  own_id x u hu := by
    rw [Table.get?_erase] at hu
    split at hu
    · cases hu
    · exact h.own_id x u hu
  own_key x y u v hu hv hkey := by
    rw [Table.get?_erase] at hu hv
    split at hu <;> split at hv
    · cases hu
    · cases hu
    · cases hv
    · exact h.own_key x y u v hu hv hkey

theorem create (h : ts.Sound) (hts : ts.create t = .ok ts') : ts'.Sound := by
  obtain ⟨-, hfree, rfl⟩ := create_eq_ok hts
  exact h.insert hfree

theorem update (h : ts.Sound) (hts : ts.update t = .ok ts') : ts'.Sound := by
  obtain ⟨hfree, rfl⟩ := update_eq_ok hts
  exact h.insert hfree

end Sound

end Tenants

/-- A table in which identifiers and keys tell the tenants apart. -/
structure Registry where
  table : Tenants
  sound : table.Sound

namespace Registry

def empty : Registry := ⟨.empty, .empty⟩

instance : Inhabited Registry := ⟨empty⟩

def tenants (r : Registry) : List Tenant := r.table.values

def get? (r : Registry) (id : TenantId) : Option Tenant := r.table.get? id

def ofKey? (r : Registry) (key : String) : Option Tenant := r.table.ofKey? key

/-- The tenants in the order of their registration, those of one instant by identifier. -/
def list (r : Registry) : List Tenant :=
  r.tenants.mergeSort fun a b =>
    decide (a.createdAt < b.createdAt) ||
      (decide (a.createdAt = b.createdAt) && !TenantId.lt b.id a.id)

/-- Adds a tenant whose identifier and key are free. -/
def create (r : Registry) (t : Tenant) : Except Failure Registry :=
  match h : r.table.create t with
  | .ok table => .ok ⟨table, r.sound.create h⟩
  | .error f => .error f

/-- Replaces a registered tenant; the key has to be free or its own. -/
def update (r : Registry) (t : Tenant) : Except Failure Registry :=
  match h : r.table.update t with
  | .ok table => .ok ⟨table, r.sound.update h⟩
  | .error f => .error f

/-- Takes a tenant out; whether there was one. -/
def delete (r : Registry) (id : TenantId) : Bool × Registry :=
  ((r.table.delete id).1, ⟨(r.table.delete id).2, r.sound.erase id⟩)

end Registry

end AuditTrail
