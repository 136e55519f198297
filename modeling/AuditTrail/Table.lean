/-!
# Tables

A table holds values under keys, each key once, in the order in which the keys were first used. A
look-up after an operation finds what the operation put there and else what was there before.
-/

namespace AuditTrail

structure Table (κ α : Type) where
  entries : List (κ × α)
  nodup : (entries.map Prod.fst).Nodup

namespace Table

variable {κ α : Type} [DecidableEq κ]

def empty : Table κ α := ⟨[], List.nodup_nil⟩

instance : Inhabited (Table κ α) := ⟨empty⟩

def size (t : Table κ α) : Nat := t.entries.length

def keys (t : Table κ α) : List κ := t.entries.map Prod.fst

def values (t : Table κ α) : List α := t.entries.map Prod.snd

/-- The value of the first entry with a key. -/
def find? (k : κ) : List (κ × α) → Option α
  | [] => none
  | (k', v) :: rest => if k' = k then some v else find? k rest

def get? (t : Table κ α) (k : κ) : Option α := find? k t.entries

def contains (t : Table κ α) (k : κ) : Bool := (t.get? k).isSome

/-- Replaces the value of a key, or appends an entry for it. -/
def put (k : κ) (v : α) : List (κ × α) → List (κ × α)
  | [] => [(k, v)]
  | (k', v') :: rest => if k' = k then (k, v) :: rest else (k', v') :: put k v rest

private theorem mem_keys_put (k x : κ) (v : α) (es : List (κ × α)) :
    x ∈ (put k v es).map Prod.fst ↔ x = k ∨ x ∈ es.map Prod.fst := by
  induction es with
  | nil => simp [put]
  | cons e rest ih =>
    unfold put
    split
    · rename_i h
      subst h
      simp
    · simp only [List.map_cons, List.mem_cons, ih]
      grind

private theorem nodup_put (k : κ) (v : α) (es : List (κ × α)) (h : (es.map Prod.fst).Nodup) :
    ((put k v es).map Prod.fst).Nodup := by
  induction es with
  | nil => simp [put]
  | cons e rest ih =>
    simp only [List.map_cons, List.nodup_cons] at h
    unfold put
    split
    · rename_i hk
      subst hk
      simpa using h
    · rename_i hk
      simp only [List.map_cons, List.nodup_cons, mem_keys_put, not_or]
      exact ⟨⟨hk, h.1⟩, ih h.2⟩

def insert (t : Table κ α) (k : κ) (v : α) : Table κ α := ⟨put k v t.entries, nodup_put k v _ t.nodup⟩

omit [DecidableEq κ] in
theorem nodup_filter (p : κ × α → Bool) (es : List (κ × α)) (h : (es.map Prod.fst).Nodup) :
    ((es.filter p).map Prod.fst).Nodup :=
  List.Nodup.sublist (List.filter_sublist.map _) h

def filter (t : Table κ α) (p : κ → α → Bool) : Table κ α :=
  ⟨t.entries.filter fun e => p e.1 e.2, nodup_filter _ _ t.nodup⟩

def erase (t : Table κ α) (k : κ) : Table κ α := t.filter fun k' _ => k' ≠ k

private theorem find?_put (k x : κ) (v : α) (es : List (κ × α)) :
    find? x (put k v es) = if k = x then some v else find? x es := by
  induction es with
  | nil => simp [put, find?]
  | cons e rest ih =>
    unfold put
    split
    · rename_i h
      simp only [find?]
      split <;> simp_all
    · simp only [find?]
      split
      · rename_i h h'
        subst h'
        simp [Ne.symm h]
      · exact ih

@[simp] theorem get?_empty (k : κ) : (empty : Table κ α).get? k = none := rfl

theorem get?_insert (t : Table κ α) (k x : κ) (v : α) :
    (t.insert k v).get? x = if k = x then some v else t.get? x :=
  find?_put k x v t.entries

private theorem find?_filter_ne (k x : κ) (es : List (κ × α)) :
    find? x (es.filter fun e => e.1 ≠ k) = if k = x then none else find? x es := by
  induction es with
  | nil => simp [find?]
  | cons e rest ih =>
    simp only [List.filter_cons, find?]
    grind [find?]

theorem get?_erase (t : Table κ α) (k x : κ) :
    (t.erase k).get? x = if k = x then none else t.get? x :=
  find?_filter_ne k x t.entries

theorem find?_eq_some {k : κ} {v : α} {es : List (κ × α)} (h : (es.map Prod.fst).Nodup) :
    find? k es = some v ↔ (k, v) ∈ es := by
  induction es with
  | nil => simp [find?]
  | cons e rest ih =>
    simp only [List.map_cons, List.nodup_cons] at h
    have hrest := ih h.2
    unfold find?
    split
    · rename_i hk
      subst hk
      have habsent : (e.1, v) ∉ rest := fun hmem => h.1 (List.mem_map.mpr ⟨_, hmem, rfl⟩)
      simp [habsent, Prod.ext_iff, eq_comm]
    · rename_i hk
      simp [hrest, Prod.ext_iff, Ne.symm hk]

/-- What is found among the entries that are kept was there before. -/
theorem get?_of_filter {t : Table κ α} {p : κ → α → Bool} {k : κ} {v : α}
    (h : (t.filter p).get? k = some v) : t.get? k = some v := by
  have hkept := (find?_eq_some (t.filter p).nodup).mp h
  exact (find?_eq_some t.nodup).mpr (List.mem_filter.mp hkept).1

/-- What is found after entries were sorted out is what was found before, if it passes the test. -/
theorem get?_filter (t : Table κ α) (p : κ → α → Bool) (k : κ) :
    (t.filter p).get? k = (t.get? k).filter (p k) := by
  ext v
  rw [Option.filter_eq_some_iff]
  calc (t.filter p).get? k = some v
      ↔ (k, v) ∈ (t.filter p).entries := find?_eq_some (t.filter p).nodup
    _ ↔ (k, v) ∈ t.entries ∧ p k v = true := List.mem_filter
    _ ↔ t.get? k = some v ∧ p k v = true := and_congr_left fun _ => (find?_eq_some t.nodup).symm

theorem erase_of_absent {t : Table κ α} {k : κ} (h : t.get? k = none) : t.erase k = t := by
  have hkept : t.entries.filter (fun e => e.1 ≠ k) = t.entries := by
    rw [List.filter_eq_self]
    rintro ⟨k', v⟩ hmem
    have hfound : t.get? k' = some v := (find?_eq_some t.nodup).mpr hmem
    have hne : k' ≠ k := by
      rintro rfl
      rw [h] at hfound
      cases hfound
    simpa using hne
  unfold erase filter
  congr

end Table

end AuditTrail
