import AuditTrail.Columnar.Index
/-!
# Rows by their tables

Events are put into the index table by table. The rows of a table are those of the events whose partitions have
it, in the order of the events.
-/

namespace AuditTrail.Columnar

/-- The rows of a table in a list of tables with rows. -/
def rowsOf (name : String) (groups : List (String × List IndexRow)) : List IndexRow :=
  (groups.filter fun g => g.1 = name).flatMap (·.2)

theorem rowsOf_eq_nil {name : String} {groups : List (String × List IndexRow)} (h : ∀ g ∈ groups, g.1 ≠ name) :
    rowsOf name groups = [] := by
  rw [rowsOf, List.filter_eq_nil_iff.mpr fun g hg => by simpa using h g hg, List.flatMap_nil]

@[simp] theorem rowsOf_nil (name : String) : rowsOf name [] = [] := rfl

theorem rowsOf_cons (name table : String) (rows : List IndexRow) (groups : List (String × List IndexRow)) :
    rowsOf name ((table, rows) :: groups) = (if table = name then rows else []) ++ rowsOf name groups := by
  rw [rowsOf, List.filter_cons]
  split <;> simp_all [rowsOf]

private theorem mem_groupRow {table t : String} {row : IndexRow} {groups : List (String × List IndexRow)} :
    t ∈ (groupRow table row groups).map Prod.fst ↔ t = table ∨ t ∈ groups.map Prod.fst := by
  induction groups with
  | nil => simp [groupRow]
  | cons g rest ih =>
    rw [groupRow]
    split
    · simp_all
    · split
      · simp
      · simp [ih, or_left_comm]

/-- Tables in the order of their names, each once. -/
def InOrder (groups : List (String × List IndexRow)) : Prop := groups.Pairwise fun g g' => g.1 < g'.1

theorem InOrder.groupRow {groups : List (String × List IndexRow)} (h : InOrder groups) (table : String)
    (row : IndexRow) : InOrder (groupRow table row groups) := by
  induction groups with
  | nil => exact List.pairwise_singleton _ _
  | cons g rest ih =>
    obtain ⟨t, rows⟩ := g
    obtain ⟨hfirst, hrest⟩ := List.pairwise_cons.mp h
    rw [Columnar.groupRow]
    split
    · exact List.pairwise_cons.mpr ⟨hfirst, hrest⟩
    · rename_i hne
      split
      · rename_i hlt
        refine List.pairwise_cons.mpr ⟨fun g hg => ?_, h⟩
        rcases List.mem_cons.mp hg with rfl | hg
        · exact hlt
        · exact String.lt_trans hlt (hfirst g hg)
      · rename_i hle
        refine List.pairwise_cons.mpr ⟨fun g hg => ?_, ih hrest⟩
        rcases mem_groupRow.mp (List.mem_map_of_mem hg) with heq | hmem
        · rw [heq]
          exact Std.lt_of_le_of_ne (String.not_lt.mp hle) hne
        · obtain ⟨g', hg', heq⟩ := List.mem_map.mp hmem
          rw [← heq]
          exact hfirst g' hg'

private theorem rowsOf_groupRow {groups : List (String × List IndexRow)} (h : InOrder groups) (name table : String)
    (row : IndexRow) :
    rowsOf name (groupRow table row groups) = rowsOf name groups ++ if table = name then [row] else [] := by
  induction groups with
  | nil => simp [groupRow, rowsOf_cons]
  | cons g rest ih =>
    obtain ⟨t, rows⟩ := g
    obtain ⟨hfirst, hrest⟩ := List.pairwise_cons.mp h
    rw [groupRow]
    split
    · rename_i heq
      subst heq
      simp only [rowsOf_cons]
      split
      · rename_i heq
        subst heq
        rw [rowsOf_eq_nil fun g hg heq => ?_]
        · simp
        · exact String.lt_irrefl _ (heq ▸ hfirst g hg)
      · simp
    · rename_i hne
      split
      · rename_i hlt
        rw [rowsOf_cons]
        by_cases heq : table = name
        · subst heq
          rw [rowsOf_eq_nil fun g hg heq => ?_]
          · simp
          · rcases List.mem_cons.mp hg with rfl | hg
            · exact hne heq
            · exact String.lt_asymm hlt (heq ▸ hfirst g hg)
        · simp [heq]
      · rw [rowsOf_cons, rowsOf_cons, ih hrest, List.append_assoc]

/-! ## Rows of events -/

variable {s : SearchSettings} {tenant : TenantId} {indexedAt : Instant}

/-- The rows of events whose partitions have the table of a name. -/
def eventRows (s : SearchSettings) (tenant : TenantId) (indexedAt : Instant) (name : String)
    (events : List Event) : List IndexRow :=
  (events.filter fun e => tableOf s tenant e.timestamp = name).map (IndexRow.ofEvent · indexedAt)

private theorem eventRows_cons (name : String) (e : Event) (events : List Event) :
    eventRows s tenant indexedAt name (e :: events) =
      (if tableOf s tenant e.timestamp = name then [IndexRow.ofEvent e indexedAt] else []) ++
        eventRows s tenant indexedAt name events := by
  rw [eventRows, List.filter_cons]
  split <;> simp_all [eventRows]

/-- The rows of events are grouped by the tables of their partitions. -/
theorem rowsOf_groupEvents {events : List Event} {groups : List (String × List IndexRow)}
    (h : groupEvents s tenant indexedAt events = .ok groups) :
    (∀ name, rowsOf name groups = eventRows s tenant indexedAt name events) ∧
      ∀ t ∈ groups.map Prod.fst, ∃ e ∈ events, tableOf s tenant e.timestamp = t := by
  unfold groupEvents at h
  generalize hbefore : ([] : List (String × List IndexRow)) = before at h
  have horder : InOrder before := hbefore ▸ List.Pairwise.nil
  suffices hfrom : (∀ name, rowsOf name groups = rowsOf name before ++ eventRows s tenant indexedAt name events) ∧
      ∀ t ∈ groups.map Prod.fst, t ∈ before.map Prod.fst ∨
        ∃ e ∈ events, tableOf s tenant e.timestamp = t by
    subst hbefore
    simpa using hfrom
  clear hbefore
  induction events generalizing before with
  | nil =>
    cases h
    simp [eventRows]
  | cons e rest ih =>
    rw [List.foldlM_cons] at h
    split at h
    · cases h
    · obtain ⟨hrows, htables⟩ := ih _ h (horder.groupRow _ _)
      refine ⟨fun name => ?_, fun t ht => ?_⟩
      · rw [hrows, rowsOf_groupRow horder, eventRows_cons, List.append_assoc]
      · have hgrouped := htables t ht
        rw [mem_groupRow] at hgrouped
        rcases hgrouped with (rfl | hmem) | ⟨d, hd, htable⟩
        · exact .inr ⟨e, by simp, rfl⟩
        · exact .inl hmem
        · exact .inr ⟨d, by simp [hd], htable⟩

end AuditTrail.Columnar
