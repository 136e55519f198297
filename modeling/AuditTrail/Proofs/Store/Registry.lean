import AuditTrail.Proofs.Pipeline.Running
/-!
# Looking up tenants

The tenants that are registered after a change of the registry, and what an identifier and a key lead to.
-/

namespace AuditTrail

namespace Tenants

variable {ts : Tenants} {t : Tenant} {key : String}

/-- The only holder of a key is found among the tenants in any order. -/
theorem find?_key_eq_some (h : ts.Sound) {us : List Tenant} (hus : ∀ u, u ∈ us ↔ u ∈ ts.values) :
    (us.find? fun u => u.apiKey = key) = some t ↔ ts.get? t.id = some t ∧ t.apiKey = key := by
  have hmem (u : Tenant) : u ∈ us ↔ ts.get? u.id = some u := by
    rw [hus, mem_values]
    constructor
    · rintro ⟨id, hu⟩
      rwa [h.own_id id u hu]
    · exact fun hu => ⟨_, hu⟩
  constructor
  · intro ht
    exact ⟨(hmem t).mp (List.mem_of_find?_eq_some ht), by simpa using List.find?_some ht⟩
  · rintro ⟨ht, rfl⟩
    cases hfound : us.find? fun u => u.apiKey = t.apiKey with
    | none =>
      rw [List.find?_eq_none] at hfound
      simpa using hfound t ((hmem t).mpr ht)
    | some u =>
      have hu := (hmem u).mp (List.mem_of_find?_eq_some hfound)
      have hkey : u.apiKey = t.apiKey := by simpa using List.find?_some hfound
      have hid : u.id = t.id := h.own_key _ _ u t hu ht hkey
      rw [hid, ht] at hu
      exact hu.symm

theorem ofKey?_eq_some (h : ts.Sound) : ts.ofKey? key = some t ↔ ts.get? t.id = some t ∧ t.apiKey = key :=
  find?_key_eq_some h fun _ => Iff.rfl

end Tenants

namespace Registry

variable {r s : Registry} {t u : Tenant} {id : TenantId} {key : String}

private theorem mem_tenants : t ∈ r.tenants ↔ r.table.get? t.id = some t := by
  rw [tenants, Tenants.mem_values]
  constructor
  · rintro ⟨id, ht⟩
    rwa [r.sound.own_id id t ht]
  · exact fun ht => ⟨_, ht⟩

theorem eq_of_id (ht : t ∈ r.tenants) (hu : u ∈ r.tenants) (h : t.id = u.id) : t = u := by
  rw [mem_tenants] at ht hu
  rw [h, hu] at ht
  exact (Option.some.inj ht).symm

theorem nodup_list (r : Registry) : (r.list.map Tenant.id).Nodup := by
  have hids : r.tenants.map Tenant.id = r.table.keys := by
    rw [tenants, Table.values, Table.keys, List.map_map]
    apply List.map_congr_left
    intro entry hentry
    exact r.sound.own_id _ _ ((Table.find?_eq_some r.table.nodup).mpr hentry)
  have hperm := (List.mergeSort_perm r.tenants fun a b => decide (a.createdAt < b.createdAt) ||
    (decide (a.createdAt = b.createdAt) && !TenantId.lt b.id a.id)).map Tenant.id
  rw [hids] at hperm
  exact hperm.nodup_iff.mpr r.table.nodup

theorem get?_eq_some : r.get? id = some t ↔ t ∈ r.tenants ∧ t.id = id := by
  rw [get?, mem_tenants]
  constructor
  · intro ht
    obtain rfl := r.sound.own_id id t ht
    exact ⟨ht, rfl⟩
  · rintro ⟨ht, rfl⟩
    exact ht

theorem ofKey?_eq_some : r.ofKey? key = some t ↔ t ∈ r.tenants ∧ t.apiKey = key := by
  rw [ofKey?, Tenants.ofKey?_eq_some r.sound, mem_tenants]

private theorem table_of_create (h : r.create t = .ok s) : r.table.create t = .ok s.table := by
  unfold create at h
  split at h
  · rename_i htable
    cases h
    exact htable
  · cases h

private theorem table_of_update (h : r.update t = .ok s) : r.table.update t = .ok s.table := by
  unfold update at h
  split at h
  · rename_i htable
    cases h
    exact htable
  · cases h

theorem mem_create (h : r.create t = .ok s) : u ∈ s.tenants ↔ u ∈ r.tenants ∨ u = t := by
  obtain ⟨habsent, -, htable⟩ := Tenants.create_eq_ok (table_of_create h)
  rw [mem_tenants, mem_tenants, htable, Table.get?_insert]
  split
  · rename_i hid
    rw [← hid, habsent]
    simp [eq_comm]
  · rename_i hne
    have hother : u ≠ t := fun hut => hne (hut ▸ rfl)
    simp [hother]

theorem id_ne_of_create (h : r.create t = .ok s) (hu : u ∈ r.tenants) : u.id ≠ t.id := by
  obtain ⟨habsent, -, -⟩ := Tenants.create_eq_ok (table_of_create h)
  intro hid
  rw [mem_tenants, hid, habsent] at hu
  cases hu

theorem mem_update (h : r.update t = .ok s) : u ∈ s.tenants ↔ u = t ∨ u ∈ r.tenants ∧ u.id ≠ t.id := by
  obtain ⟨-, htable⟩ := Tenants.update_eq_ok (table_of_update h)
  rw [mem_tenants, mem_tenants, htable, Table.get?_insert]
  split
  · rename_i hid
    simp [hid, eq_comm]
  · rename_i hne
    have hother : u ≠ t := fun hut => hne (hut ▸ rfl)
    simp [hother, Ne.symm hne]

theorem mem_delete : u ∈ (r.delete id).2.tenants ↔ u ∈ r.tenants ∧ u.id ≠ id := by
  rw [mem_tenants, mem_tenants]
  change (r.table.erase id).get? u.id = some u ↔ _
  rw [Table.get?_erase]
  split
  · rename_i hid
    simp [hid]
  · rename_i hne
    simp [Ne.symm hne]

theorem delete_eq_self (h : (r.delete id).1 = false) : (r.delete id).2 = r := by
  obtain ⟨table, hsound⟩ := r
  have habsent : ¬(table.get? id).isSome = true := Bool.eq_false_iff.mp h
  have herased : table.erase id = table := Table.erase_of_absent (Option.not_isSome_iff_eq_none.mp habsent)
  simp only [delete, Tenants.delete, herased]

end Registry

end AuditTrail
