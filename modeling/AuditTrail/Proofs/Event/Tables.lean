import AuditTrail.Event.Collection
import AuditTrail.Message
import Mathlib.Data.List.Nodup
/-!
# Tables of events and the messages about them

What a table holds under a key after events were put into it or taken out of it. A table that has absorbed
messages one after the other holds under a key what the last message about that key says:
`EventTable.get?_absorbAll`.
-/

namespace AuditTrail

namespace EventTable

variable {t u : EventTable} {e d : Event} {tenant : TenantId} {id : String}

/-! ## Finding -/

theorem get?_eq_some_iff : t.get? tenant id = some e ↔ e ∈ t.events ∧ e.key = (tenant, id) := by
  constructor
  · intro h
    have hkey := List.find?_some h
    exact ⟨List.mem_of_find?_eq_some h, by simpa using hkey⟩
  · rintro ⟨hmem, hkey⟩
    cases hfound : t.get? tenant id with
    | none =>
      rw [get?, List.find?_eq_none] at hfound
      exact absurd hkey (by simpa using hfound e hmem)
    | some d =>
      have hdkey : d.key = (tenant, id) := by simpa using List.find?_some hfound
      rw [List.inj_on_of_nodup_map t.nodup (List.mem_of_find?_eq_some hfound) hmem (hdkey.trans hkey.symm)]

theorem mem_iff_get? : e ∈ t.events ↔ t.get? e.tenant e.id = some e := by
  rw [get?_eq_some_iff]
  exact ⟨fun h => ⟨h, rfl⟩, fun h => h.1⟩

theorem mem_ofTenant : e ∈ t.ofTenant tenant ↔ e ∈ t.events ∧ e.tenant = tenant := by
  simp [ofTenant]

/-- Two tables with the same events hold the same events of each tenant. -/
theorem ofTenant_perm (h : ∀ e, e ∈ t.events ↔ e ∈ u.events) (tenant : TenantId) :
    (t.ofTenant tenant).Perm (u.ofTenant tenant) := by
  have hevents : t.events.Perm u.events :=
    (List.perm_ext_iff_of_nodup (t.nodup.of_map _) (u.nodup.of_map _)).mpr h
  exact hevents.filter _

/-- Two tables hold the same events of a tenant when they agree on each of its identifiers. -/
theorem ofTenant_perm_iff :
    (t.ofTenant tenant).Perm (u.ofTenant tenant) ↔ ∀ id, t.get? tenant id = u.get? tenant id := by
  have hnodup (t : EventTable) : (t.ofTenant tenant).Nodup := (t.nodup.of_map _).filter _
  rw [List.perm_ext_iff_of_nodup (hnodup t) (hnodup u)]
  have hmem (t : EventTable) (e : Event) :
      e ∈ t.ofTenant tenant ↔ e.tenant = tenant ∧ t.get? tenant e.id = some e := by
    rw [mem_ofTenant, get?_eq_some_iff, Event.key, Prod.mk.injEq]
    grind
  simp only [hmem]
  constructor
  · intro h id
    apply Option.ext
    intro e
    have he := h e
    constructor
    · intro hsome
      have hkey := (get?_eq_some_iff.mp hsome).2
      rw [Event.key, Prod.mk.injEq] at hkey
      obtain ⟨rfl, rfl⟩ := hkey
      exact (he.mp ⟨rfl, hsome⟩).2
    · intro hsome
      have hkey := (get?_eq_some_iff.mp hsome).2
      rw [Event.key, Prod.mk.injEq] at hkey
      obtain ⟨rfl, rfl⟩ := hkey
      exact (he.mpr ⟨rfl, hsome⟩).2
  · intro h e
    rw [h e.id]

theorem filter_key_of_get? (h : t.get? tenant id = some e) :
    (t.events.filter fun d => d.key = (tenant, id)) = [e] := by
  have hnodup : (t.events.filter fun d => d.key = (tenant, id)).Nodup := (t.nodup.of_map _).filter _
  apply List.perm_singleton.mp
  rw [List.perm_ext_iff_of_nodup hnodup (List.nodup_singleton e)]
  intro d
  have hfound : d ∈ t.events ∧ d.key = (tenant, id) ↔ d = e := by
    rw [← get?_eq_some_iff, h, Option.some_inj, eq_comm]
  simpa using hfound

/-! ## Putting and taking out -/

private theorem mem_put : d ∈ (t.put e).events ↔ d = e ∨ d ∈ t.events ∧ d.key ≠ e.key := by
  rw [mem_iff_get?, get?_put, mem_iff_get?]
  change (if e.key = d.key then some e else _) = _ ↔ _
  by_cases h : e.key = d.key
  · simp [h, eq_comm]
  · have hne : d ≠ e := fun heq => h (heq ▸ rfl)
    simp [h, hne, Ne.symm h]

theorem mem_erase : e ∈ (t.erase tenant id).events ↔ e ∈ t.events ∧ e.key ≠ (tenant, id) := by
  simp [erase, filter]

theorem length_erase (t : EventTable) (tenant : TenantId) (id : String) :
    (t.erase tenant id).events.length + (if t.has tenant id then 1 else 0) = t.events.length := by
  have hsplit := t.events.length_eq_length_filter_add fun e => e.key = (tenant, id)
  have hrest : (t.erase tenant id).events = t.events.filter fun e => !decide (e.key = (tenant, id)) := by
    simp [erase, filter]
  cases hfound : t.get? tenant id with
  | some e =>
    rw [filter_key_of_get? hfound, ← hrest, List.length_singleton] at hsplit
    simp only [has, hfound, Option.isSome_some, if_true]
    omega
  | none =>
    have hnone : (t.events.filter fun e => e.key = (tenant, id)) = [] := by
      rw [List.filter_eq_nil_iff]
      exact List.find?_eq_none.mp hfound
    rw [hnone, ← hrest, List.length_nil] at hsplit
    simp only [has, hfound, Option.isSome_none, Bool.false_eq_true, if_false]
    omega

/-- An event that is put in is one more, if it takes the place of none. -/
theorem length_put (t : EventTable) (e : Event) :
    (t.put e).events.length + (if t.has e.tenant e.id then 1 else 0) = t.events.length + 1 := by
  have hnew : e ∉ (t.erase e.tenant e.id).events := fun h => (mem_erase.mp h).2 rfl
  have hrest : (t.erase e.tenant e.id).events.Nodup := (t.erase e.tenant e.id).nodup.of_map _
  have hperm : (t.put e).events.Perm (e :: (t.erase e.tenant e.id).events) := by
    rw [List.perm_ext_iff_of_nodup ((t.put e).nodup.of_map _) (List.nodup_cons.mpr ⟨hnew, hrest⟩)]
    intro d
    rw [List.mem_cons, mem_erase, mem_put]
    rfl
  have herased := t.length_erase e.tenant e.id
  rw [hperm.length_eq, List.length_cons]
  omega

theorem get?_erase (tenant' : TenantId) (id' : String) :
    (t.erase tenant id).get? tenant' id' =
      if (tenant', id') = (tenant, id) then none else t.get? tenant' id' := by
  apply Option.ext
  intro e
  rw [get?_eq_some_iff, mem_erase]
  by_cases h : (tenant', id') = (tenant, id)
  · rw [if_pos h, ← h]
    simp
  · rw [if_neg h, get?_eq_some_iff]
    grind

/-- The last of some events with a key. -/
def lastOf (events : List Event) (key : TenantId × String) : Option Event :=
  events.reverse.find? fun e => e.key = key

private theorem get?_putAll (events : List Event) :
    (t.putAll events).get? tenant id = (lastOf events (tenant, id)).or (t.get? tenant id) := by
  induction events generalizing t with
  | nil => rfl
  | cons e rest ih =>
    rw [putAll, List.foldl_cons]
    change (putAll (t.put e) rest).get? tenant id = _
    rw [ih, get?_put, lastOf, lastOf, List.reverse_cons, List.find?_append, Option.or_assoc]
    by_cases h : e.key = (tenant, id) <;> simp [h]

/-- Events that are added are put into the table; none of them was there before. -/
theorem addAll_eq_ok {events : List Event} (h : addAll events t = .ok u) :
    u = t.putAll events ∧ (∀ e ∈ events, t.get? e.tenant e.id = none) ∧
      ∀ d, d ∈ u.events ↔ d ∈ t.events ∨ d ∈ events := by
  induction events generalizing t with
  | nil =>
    cases h
    simp [putAll]
  | cons e rest ih =>
    unfold addAll at h
    split at h
    · cases h
    · rename_i hfresh
      have habsent : t.get? e.tenant e.id = none := by simpa [has] using hfresh
      have hother : ∀ d ∈ t.events, d.key ≠ e.key := by
        intro d hd heq
        have hfound := get?_eq_some_iff.mpr ⟨hd, heq⟩
        rw [habsent] at hfound
        cases hfound
      obtain ⟨hput, hnew, hmem⟩ := ih h
      refine ⟨hput, ?_, ?_⟩
      · intro d hd
        rcases List.mem_cons.mp hd with rfl | hd
        · exact habsent
        · have hd := hnew d hd
          rw [get?_put] at hd
          split at hd
          · cases hd
          · exact hd
      · intro d
        rw [hmem, mem_put, List.mem_cons]
        have := hother d
        grind

theorem length_addAll {events : List Event} (h : addAll events t = .ok u) :
    u.events.length = t.events.length + events.length := by
  induction events generalizing t with
  | nil =>
    cases h
    rfl
  | cons e rest ih =>
    unfold addAll at h
    split at h
    · cases h
    · rename_i hfresh
      have hput := t.length_put e
      rw [if_neg hfresh, Nat.add_zero] at hput
      rw [ih h, hput, List.length_cons]
      omega

end EventTable

/-! ## Messages about events -/

namespace Message

/-- What a message says there is under a key, if it is about that key. -/
def tells (m : Message) (key : TenantId × String) : Option (Option Event) :=
  match m.kind with
  | .delete => if key = (m.tenant, m.eventId.getD "") then some none else none
  | _ => (EventTable.lastOf m.events key).map some

theorem tells_of_ne_delete {m : Message} (h : m.kind ≠ .delete) (key : TenantId × String) :
    m.tells key = (EventTable.lastOf m.events key).map some := by
  unfold tells
  split
  · rename_i hkind
    exact absurd hkind h
  · rfl

/-- What the last message about a key says, if any of some messages is about it. -/
def told (messages : List Message) (key : TenantId × String) : Option (Option Event) :=
  messages.reverse.findSome? fun m => m.tells key

/-- What the last message about a key says there is under it. -/
def lastTold (messages : List Message) (key : TenantId × String) : Option Event :=
  (messages.reverse.findSome? fun m => m.tells key).join

theorem lastTold_append (messages : List Message) (m : Message) (key : TenantId × String) :
    lastTold (messages ++ [m]) key = (m.tells key).getD (lastTold messages key) := by
  rw [lastTold, List.reverse_append, List.reverse_singleton, List.singleton_append, List.findSome?_cons]
  cases m.tells key <;> rfl

end Message

namespace EventTable

variable {t : EventTable} {tenant : TenantId} {id : String}

def absorb (t : EventTable) (m : Message) : EventTable :=
  match m.kind with
  | .delete => t.erase m.tenant (m.eventId.getD "")
  | _ => t.putAll m.events

theorem absorb_of_delete {m : Message} (h : m.kind = .delete) :
    t.absorb m = t.erase m.tenant (m.eventId.getD "") := by
  unfold absorb
  rw [h]

theorem absorb_of_ne_delete {m : Message} (h : m.kind ≠ .delete) : t.absorb m = t.putAll m.events := by
  unfold absorb
  split
  · rename_i hkind
    exact absurd hkind h
  · rfl

/-- The table after what some messages ask for, one after the other. -/
def absorbAll (t : EventTable) (messages : List Message) : EventTable := messages.foldl absorb t

theorem get?_absorb (m : Message) :
    (t.absorb m).get? tenant id = (m.tells (tenant, id)).getD (t.get? tenant id) := by
  have hput : (t.putAll m.events).get? tenant id =
      ((lastOf m.events (tenant, id)).map some).getD (t.get? tenant id) := by
    rw [get?_putAll]
    cases lastOf m.events (tenant, id) <;> rfl
  unfold absorb Message.tells
  cases m.kind with
  | delete =>
    simp only
    rw [get?_erase]
    split <;> rfl
  | index => exact hput
  | bulkIndex => exact hput

/-- A table that has absorbed messages holds what they told last, and else what it held before. -/
theorem get?_absorbAll_from (messages : List Message) (t : EventTable) :
    (absorbAll t messages).get? tenant id =
      (Message.told messages (tenant, id)).getD (t.get? tenant id) := by
  induction messages generalizing t with
  | nil => rfl
  | cons m rest ih =>
    rw [absorbAll, List.foldl_cons]
    change (absorbAll (t.absorb m) rest).get? tenant id = _
    rw [ih, get?_absorb, Message.told, Message.told, List.reverse_cons, List.findSome?_append]
    cases rest.reverse.findSome? fun m => m.tells (tenant, id) with
    | some v => rfl
    | none => cases hm : m.tells (tenant, id) <;> simp [hm]

theorem get?_absorbAll (messages : List Message) :
    (absorbAll .empty messages).get? tenant id = Message.lastTold messages (tenant, id) := by
  rw [get?_absorbAll_from]
  change _ = (Message.told messages (tenant, id)).join
  cases Message.told messages (tenant, id) <;> rfl

theorem absorbAll_append (messages : List Message) (m : Message) :
    absorbAll t (messages ++ [m]) = (absorbAll t messages).absorb m := by
  rw [absorbAll, List.foldl_append]
  rfl

end EventTable

end AuditTrail
