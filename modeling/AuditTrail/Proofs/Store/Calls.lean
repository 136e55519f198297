import AuditTrail.Proofs.Store.Registry
/-!
# Calls of the registry

Calls that add, replace and delete tenants are made one after the other, with any tenants. In the table that
they leave behind tenants are held under their own identifiers and no two hold one key, since each call keeps it
so, done or refused. That is why one tenant at most is found by a key, in whichever order they are looked at.
-/

namespace AuditTrail

namespace Tenants

inductive Call where
  | create (t : Tenant)
  | update (t : Tenant)
  | delete (id : TenantId)

/-- The answer to a change that may be refused, and the tenants after it. -/
def settle (ts : Tenants) (change : Except Failure Tenants) : Except Failure Bool × Tenants :=
  match change with
  | .ok ts' => (.ok true, ts')
  | .error f => (.error f, ts)

/-- The answer to a call, and the tenants after it. A deletion is answered with whether there was a tenant. -/
def perform (ts : Tenants) : Call → Except Failure Bool × Tenants
  | .create t => ts.settle (ts.create t)
  | .update t => ts.settle (ts.update t)
  | .delete id => (.ok (ts.delete id).1, (ts.delete id).2)

def afterCalls (ts : Tenants) (calls : List Call) : Tenants := calls.foldl (fun ts c => (ts.perform c).2) ts

variable {ts : Tenants} {t : Tenant} {change : Except Failure Tenants} {conflict done : Prop}

/-! ## Calls keep identifiers and keys apart -/

theorem Sound.settle (h : ts.Sound) (hchange : ∀ ts', change = .ok ts' → ts'.Sound) :
    Sound (ts.settle change).2 := by
  cases change with
  | ok ts' => exact hchange ts' rfl
  | error f => exact h

theorem Sound.perform (h : ts.Sound) (c : Call) : Sound (ts.perform c).2 := by
  cases c with
  | create t => exact h.settle fun _ => h.create
  | update t => exact h.settle fun _ => h.update
  | delete id => exact h.erase id

theorem Sound.afterCalls (h : ts.Sound) (calls : List Call) : Sound (ts.afterCalls calls) := by
  induction calls generalizing ts with
  | nil => exact h
  | cons c calls ih => exact ih (h.perform c)

private theorem Sound.pairwise (h : ts.Sound) :
    ts.entries.Pairwise fun a b => a.2.id ≠ b.2.id ∧ a.2.apiKey ≠ b.2.apiKey := by
  have hdistinct : ts.entries.Pairwise fun a b => a.1 ≠ b.1 := List.pairwise_map.mp ts.nodup
  refine hdistinct.imp_of_mem ?_
  rintro ⟨id, t⟩ ⟨id', u⟩ ht hu hne
  have hfound : ts.get? id = some t := (Table.find?_eq_some ts.nodup).mpr ht
  have hfound' : ts.get? id' = some u := (Table.find?_eq_some ts.nodup).mpr hu
  refine ⟨?_, fun hkey => hne (h.own_key id id' t u hfound hfound' hkey)⟩
  rw [h.own_id id t hfound, h.own_id id' u hfound']
  exact hne

/-! ## What a call is answered -/

/-- How a call that puts a tenant into a table ends: it is a conflict in one case and done in another one,
leaves the table as it was unless it is done, and puts nothing but the tenant there. -/
structure Puts (ts : Tenants) (t : Tenant) (conflict done : Prop)
    (r : Except Failure Bool × Tenants) : Prop where
  conflict_iff : (∃ text, r.1 = .error (.conflict text)) ↔ conflict
  done_iff : r.1 = .ok true ↔ done
  refused : r.1 ≠ .ok true → r.2 = ts
  put : r.1 = .ok true → ∀ id, r.2.get? id = if t.id = id then some t else ts.get? id

private theorem puts_settle (hconflict : (∃ text, change = .error (.conflict text)) ↔ conflict)
    (hdone : (∃ ts', change = .ok ts') ↔ done) (hput : ∀ ts', change = .ok ts' → ts' = ts.insert t.id t) :
    Puts ts t conflict done (ts.settle change) := by
  cases change with
  | ok ts' =>
    obtain rfl := hput ts' rfl
    exact ⟨by simpa [settle] using hconflict, by simpa [settle] using hdone, fun h => absurd rfl h,
      fun _ id => Table.get?_insert ts t.id id t⟩
  | error f =>
    exact ⟨by simpa [settle] using hconflict, by simpa [settle] using hdone, fun _ => rfl,
      fun h => by simp [settle] at h⟩

private theorem Sound.keyTaken_iff (h : ts.Sound) (habsent : ts.get? t.id = none) :
    ts.KeyTaken t ↔ ∃ id u, ts.get? id = some u ∧ u.apiKey = t.apiKey := by
  constructor
  · rintro ⟨id, u, hu, -, hkey⟩
    exact ⟨id, u, hu, hkey⟩
  · rintro ⟨id, u, hu, hkey⟩
    refine ⟨id, u, hu, ?_, hkey⟩
    intro hid
    rw [← hid, h.own_id id u hu, hu] at habsent
    cases habsent

private theorem puts_create (h : ts.Sound) (t : Tenant) :
    Puts ts t (ts.get? t.id ≠ none ∨ ts.KeyTaken t) (ts.get? t.id = none ∧ ¬ts.KeyTaken t)
      (ts.perform (.create t)) := by
  obtain ⟨hthere, text, hcreate⟩ | ⟨habsent, hheld, text, hcreate⟩ | ⟨habsent, hfree, hcreate⟩ :=
    ts.create_cases t
  · apply puts_settle <;> simp [hcreate, hthere]
  · have htaken : ts.KeyTaken t := (h.keyTaken_iff habsent).mpr hheld
    apply puts_settle <;> simp [hcreate, htaken]
  · have hnot : ¬ts.KeyTaken t := by
      rintro ⟨id, u, hu, -, hkey⟩
      exact hfree id u hu hkey
    apply puts_settle <;> simp [hcreate, habsent, hnot]

private theorem puts_update (ts : Tenants) (t : Tenant) :
    Puts ts t (ts.KeyTaken t) (ts.get? t.id ≠ none ∧ ¬ts.KeyTaken t) (ts.perform (.update t)) := by
  obtain ⟨htaken, text, hupdate⟩ | ⟨hfree, hthere, hupdate⟩ | ⟨hfree, habsent, text, hupdate⟩ :=
    ts.update_cases t
  · apply puts_settle <;> simp [hupdate, htaken]
  · apply puts_settle <;> simp [hupdate, hfree, hthere]
  · apply puts_settle <;> simp [hupdate, hfree, habsent]

/-- After any calls no two registered tenants share an identifier or a key, each is held under its own
identifier, and a key leads to the one tenant that holds it, in whichever order the tenants are looked at. The
next call is a conflict if the identifier or the key is taken by another tenant and only then; a call that is
refused changes nothing, and one that is done changes what is held under one identifier. -/
theorem calls_keep_apart (calls : List Call) :
    let ts := afterCalls .empty calls
    (ts.entries.Pairwise fun a b => a.2.id ≠ b.2.id ∧ a.2.apiKey ≠ b.2.apiKey) ∧
      (∀ id t, ts.get? id = some t → t.id = id) ∧
      (∀ key t, ts.ofKey? key = some t ↔ ts.get? t.id = some t ∧ t.apiKey = key) ∧
      (∀ key (us : List Tenant), us.Perm ts.values → (us.find? fun u => u.apiKey = key) = ts.ofKey? key) ∧
      (∀ t, Puts ts t (ts.get? t.id ≠ none ∨ ts.KeyTaken t) (ts.get? t.id = none ∧ ¬ts.KeyTaken t)
        (ts.perform (.create t))) ∧
      (∀ t, Puts ts t (ts.KeyTaken t) (ts.get? t.id ≠ none ∧ ¬ts.KeyTaken t) (ts.perform (.update t))) ∧
      (∀ t, ts.get? t.id = none → (ts.perform (.update t)).2 = ts) ∧
      ∀ id, (ts.perform (.delete id)).1 = .ok (ts.get? id).isSome ∧
        ∀ x, (ts.perform (.delete id)).2.get? x = if id = x then none else ts.get? x := by
  intro ts
  have hsound : ts.Sound := Sound.empty.afterCalls calls
  refine ⟨hsound.pairwise, hsound.own_id, fun key t => ofKey?_eq_some hsound, ?_, puts_create hsound,
    puts_update ts, ?_, fun id => ⟨rfl, ts.get?_erase id⟩⟩
  · intro key us hus
    apply Option.ext
    intro t
    rw [find?_key_eq_some hsound fun _ => hus.mem_iff, ofKey?_eq_some hsound]
  · intro t habsent
    apply (puts_update ts t).refused
    rw [Ne, (puts_update ts t).done_iff]
    exact fun hdone => hdone.1 habsent

end Tenants

end AuditTrail
