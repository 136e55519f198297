import AuditTrail.Index.Basic
import AuditTrail.Proofs.Time.Written
/-!
# Partitions in order

Partitions are kept in order and each once. The partitions of one tenant are in order among themselves, and
making a partition of another tenant does not show among them. Every partition that an event falls into
begins at an instant that falls into it.
-/

namespace AuditTrail

private theorem Instant.ofMonth?_date (t : Instant) :
    ∃ start, Instant.ofMonth? t.date.year t.date.month = some start ∧
      start.date = ⟨t.date.year, t.date.month, 1⟩ := by
  have hyear := t.year_date
  have hrange := t.inRange
  have hvalid := t.valid_date
  have hdays : t.date.toDays = t.seconds / 86400 := Date.toDays_ofDays _
  generalize t.date = d at hyear hvalid hdays ⊢
  obtain ⟨hfirst, hlast, hday, hlength⟩ := hvalid
  have hbegin : (Date.mk d.year d.month 1).Valid :=
    ⟨hfirst, hlast, Nat.le_refl 1, Nat.le_trans hday hlength⟩
  have hcount : d.toDays = (Date.mk d.year d.month 1).toDays + (d.day - 1 : Int) := by
    simp only [Date.toDays]
    omega
  have hlow : (Date.mk minYear 1 1).toDays ≤ (Date.mk d.year d.month 1).toDays := by
    have hmono := Date.daysBeforeYear_mono hyear.1
    have hjanuary : Date.daysBeforeMonth minYear 1 = 0 := rfl
    simp only [Date.toDays, hjanuary]
    omega
  generalize hstart : (Date.mk d.year d.month 1).toDays = days at hcount hlow
  have hseconds : minSecond ≤ days * 86400 ∧ days * 86400 ≤ maxSecond := by
    unfold minSecond
    omega
  refine ⟨⟨days * 86400, 0, hseconds, by decide, by omega⟩, ?_, ?_⟩
  · have hyears : ¬(¬(Date.mk d.year d.month 1).Valid ∨ d.year < minYear ∨ maxYear < d.year) := by
      simp only [hbegin, not_true_eq_false, false_or, not_or]
      omega
    rw [ofMonth?, ofLocal?, if_neg hyears, if_neg (by decide), hstart]
    simp [ofParts?, hseconds]
  · rw [date, Int.mul_ediv_cancel _ (by decide), ← hstart, Date.ofDays_toDays hbegin]

namespace Partition

theorem precedes_iff (a b : Partition) :
    precedes a b = true ↔ a.tenant.name < b.tenant.name ∨
      (a.tenant = b.tenant ∧ (a.year < b.year ∨ (a.year = b.year ∧ a.month < b.month))) := by
  simp [precedes, TenantId.lt]

theorem precedes_irrefl (a : Partition) : precedes a a = false := by
  rw [← Bool.not_eq_true, precedes_iff]
  grind

theorem precedes_trans {a b c : Partition} (hab : precedes a b = true) (hbc : precedes b c = true) :
    precedes a c = true := by
  rw [precedes_iff] at *
  grind

private theorem precedes_of_not {a b : Partition} (hne : a ≠ b) (h : ¬ precedes a b = true) :
    precedes b a = true := by
  have htenant : a.tenant.name = b.tenant.name → a.tenant = b.tenant := by
    intro heq
    cases ha : a.tenant
    cases hb : b.tenant
    simp_all
  have hparts : a.tenant = b.tenant → a.year = b.year → a.month ≠ b.month := by
    intro ht hy hm
    apply hne
    cases a
    cases b
    simp_all
  rw [precedes_iff] at *
  grind

/-- Partitions in their order, each once. -/
def InOrder (ps : List Partition) : Prop := ps.Pairwise fun a b => precedes a b = true

private theorem insert_cons (p q : Partition) (rest : List Partition) :
    insert p (q :: rest) = if p = q then q :: rest
      else if precedes p q then p :: q :: rest else q :: insert p rest := rfl

theorem mem_insert {p q : Partition} {ps : List Partition} : q ∈ insert p ps ↔ q = p ∨ q ∈ ps := by
  induction ps with
  | nil => simp [insert]
  | cons r rest ih =>
    rw [insert_cons]
    split
    · rename_i heq
      simp [heq]
    · split
      · simp
      · rw [List.mem_cons, ih, List.mem_cons]
        grind

theorem InOrder.insert {ps : List Partition} (h : InOrder ps) (p : Partition) :
    InOrder (insert p ps) := by
  induction ps with
  | nil => exact List.pairwise_singleton _ _
  | cons q rest ih =>
    obtain ⟨hq, hrest⟩ := List.pairwise_cons.mp h
    rw [insert_cons]
    split
    · exact h
    · rename_i hne
      split
      · rename_i hpq
        refine List.pairwise_cons.mpr ⟨?_, h⟩
        intro r hr
        rcases List.mem_cons.mp hr with rfl | hr
        · exact hpq
        · exact precedes_trans hpq (hq r hr)
      · rename_i hpq
        refine List.pairwise_cons.mpr ⟨?_, ih hrest⟩
        intro r hr
        rcases mem_insert.mp hr with rfl | hr
        · exact precedes_of_not hne hpq
        · exact hq r hr

private theorem insert_eq_cons {p : Partition} {ps : List Partition} (h : ∀ q ∈ ps, precedes p q = true) :
    insert p ps = p :: ps := by
  cases ps with
  | nil => rfl
  | cons q rest =>
    have hpq := h q (by simp)
    have hne : p ≠ q := by
      rintro rfl
      rw [precedes_irrefl] at hpq
      cases hpq
    rw [insert_cons, if_neg hne, if_pos hpq]

theorem filter_insert {ps : List Partition} (h : InOrder ps) (p : Partition) (tenant : TenantId) :
    (insert p ps).filter (fun q => decide (q.tenant = tenant)) =
      if p.tenant = tenant then insert p (ps.filter fun q => decide (q.tenant = tenant))
      else ps.filter fun q => decide (q.tenant = tenant) := by
  induction ps with
  | nil => by_cases ht : p.tenant = tenant <;> simp [insert, ht]
  | cons q rest ih =>
    obtain ⟨hq, hrest⟩ := List.pairwise_cons.mp h
    rw [insert_cons]
    split
    · rename_i heq
      subst heq
      by_cases ht : p.tenant = tenant <;> simp [ht, insert_cons]
    · rename_i hne
      split
      · rename_i hpq
        have hall : ∀ r ∈ (q :: rest).filter fun r => decide (r.tenant = tenant), precedes p r = true := by
          intro r hr
          rcases List.mem_cons.mp (List.mem_filter.mp hr).1 with rfl | hr
          · exact hpq
          · exact precedes_trans hpq (hq r hr)
        rw [insert_eq_cons hall]
        by_cases ht : p.tenant = tenant <;> simp [ht]
      · rename_i hpq
        by_cases hqt : q.tenant = tenant
        · by_cases ht : p.tenant = tenant <;> simp [insert_cons, hne, hpq, hqt, ht, ih hrest]
        · simp [hqt, ih hrest]

/-- Puts partitions into a list, one after the other. -/
def insertAll (ps made : List Partition) : List Partition := ps.foldl (fun made p => insert p made) made

theorem mem_insertAll {ps made : List Partition} {p : Partition} :
    p ∈ insertAll ps made ↔ p ∈ ps ∨ p ∈ made := by
  induction ps generalizing made with
  | nil => simp [insertAll]
  | cons q rest ih =>
    rw [insertAll, List.foldl_cons, ← insertAll, ih, mem_insert, List.mem_cons]
    grind

theorem InOrder.insertAll {ps : List Partition} (h : InOrder ps) (made : List Partition) :
    InOrder (insertAll made ps) := by
  induction made generalizing ps with
  | nil => exact h
  | cons p rest ih => exact ih (h.insert p)

private theorem filter_insert_of_ne {p : Partition} {tenant : TenantId} (h : p.tenant ≠ tenant)
    (ps : List Partition) :
    (insert p ps).filter (fun q => decide (q.tenant = tenant)) =
      ps.filter fun q => decide (q.tenant = tenant) := by
  induction ps with
  | nil => simp [insert, h]
  | cons q rest ih =>
    rw [insert_cons]
    split
    · rfl
    · split
      · simp [h]
      · simp [List.filter_cons, ih]

theorem filter_insertAll_of_ne {made : List Partition} {tenant : TenantId}
    (h : ∀ p ∈ made, p.tenant ≠ tenant) (ps : List Partition) :
    (insertAll made ps).filter (fun q => decide (q.tenant = tenant)) =
      ps.filter fun q => decide (q.tenant = tenant) := by
  induction made generalizing ps with
  | nil => rfl
  | cons p rest ih =>
    calc (insertAll rest (insert p ps)).filter (fun q => decide (q.tenant = tenant))
      _ = (insert p ps).filter fun q => decide (q.tenant = tenant) := ih (fun q hq => h q (by simp [hq])) _
      _ = ps.filter fun q => decide (q.tenant = tenant) := filter_insert_of_ne (h p (by simp)) ps

/-! ## The partitions of events -/

theorem covering_eq (tenant : TenantId) (events : List Event) :
    covering tenant events = insertAll (events.map fun e => ofInstant tenant e.timestamp) [] := by
  rw [insertAll, List.foldl_map, covering]

theorem mem_covering {tenant : TenantId} {events : List Event} {p : Partition} :
    p ∈ covering tenant events ↔ ∃ e ∈ events, ofInstant tenant e.timestamp = p := by
  rw [covering_eq, mem_insertAll]
  simp

theorem tenant_of_mem_covering {tenant : TenantId} {events : List Event} {p : Partition}
    (h : p ∈ covering tenant events) : p.tenant = tenant := by
  obtain ⟨e, -, rfl⟩ := mem_covering.mp h
  rfl

/-- The partition of an instant begins at an instant that falls into it. -/
theorem start?_ofInstant (tenant : TenantId) (t : Instant) :
    ∃ start, (ofInstant tenant t).start? = some start ∧ ofInstant tenant start = ofInstant tenant t := by
  obtain ⟨start, hstart, hdate⟩ := t.ofMonth?_date
  exact ⟨start, hstart, by rw [ofInstant, hdate]; rfl⟩

end Partition

end AuditTrail
