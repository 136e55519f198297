import AuditTrail.Index.Basic
import AuditTrail.Proofs.Number.Digits
/-!
# Names of partitions

A prefix and a tenant may have underscores of their own, but a month is written without one. So the last
underscore of a name ends the mark of its tenant, and the two digits at the end are the month: different
partitions have different names.
-/

namespace AuditTrail

private theorem append_cons_inj_of_not_mem {c : Char} {xs ys s t : List Char} (hs : c ∉ s) (ht : c ∉ t)
    (h : xs ++ c :: s = ys ++ c :: t) : xs = ys ∧ s = t := by
  rcases List.append_eq_append_iff.mp h with ⟨between, rfl, hrest⟩ | ⟨between, rfl, hrest⟩
  · cases between with
    | nil => simpa using hrest
    | cons d between =>
      obtain ⟨-, rfl⟩ := List.cons.inj hrest
      simp at hs
  · cases between with
    | nil => simpa using hrest.symm
    | cons d between =>
      obtain ⟨-, rfl⟩ := List.cons.inj hrest
      simp at ht

private theorem padded_injective (width : Nat) : Function.Injective (padded width) := by
  intro a b h
  have hread := foldl_padded width a
  rwa [h, foldl_padded, eq_comm] at hread

theorem TenantId.name_injective : Function.Injective TenantId.name := by
  rintro ⟨a, _, _⟩ ⟨b, _, _⟩ rfl
  rfl

namespace Partition

/-- The year and the month of a partition as they stand in its name. -/
def monthChars (p : Partition) : List Char := yearChars p.year ++ padded 2 p.month

theorem toList_tenantMark (pre : String) (tenant : TenantId) :
    (tenantMark pre tenant).toList = (pre.toList ++ '_' :: tenant.name.toList) ++ ['_'] := by
  simp [tenantMark]

theorem toList_name (pre : String) (p : Partition) :
    (p.name pre).toList = (tenantMark pre p.tenant).toList ++ p.monthChars := by
  simp [name, monthChars]

private theorem underscore_not_mem_padded (width n : Nat) : '_' ∉ padded width n := by
  intro h
  exact absurd (isDigit_padded h) (by decide)

theorem underscore_not_mem_monthChars (p : Partition) : '_' ∉ p.monthChars := by
  rw [monthChars, List.mem_append, not_or]
  refine ⟨?_, underscore_not_mem_padded 2 p.month⟩
  unfold yearChars
  split
  · simpa using underscore_not_mem_padded 3 p.year.natAbs
  · exact underscore_not_mem_padded 4 p.year.natAbs

/-- What follows the mark of a tenant tells the tenant, as long as it has no underscore. -/
theorem tenantMark_append_inj {pre : String} {tenant other : TenantId} {s t : List Char} (hs : '_' ∉ s)
    (ht : '_' ∉ t) (h : (tenantMark pre tenant).toList ++ s = (tenantMark pre other).toList ++ t) :
    tenant = other ∧ s = t := by
  simp only [toList_tenantMark, List.append_assoc _ ['_'], List.singleton_append] at h
  obtain ⟨hmark, hst⟩ := append_cons_inj_of_not_mem hs ht h
  have htenant := List.append_cancel_left hmark
  exact ⟨TenantId.name_injective (String.toList_inj.mp (List.cons.inj htenant).2), hst⟩

private theorem yearChars_injective : Function.Injective yearChars := by
  have hsign (width n : Nat) (rest : List Char) : padded width n ≠ '-' :: rest := by
    intro h
    exact absurd (isDigit_padded (h ▸ List.mem_cons_self)) (by decide)
  intro a b h
  unfold yearChars at h
  split at h <;> split at h
  · have := padded_injective 3 (List.cons.inj h).2
    omega
  · exact absurd h.symm (hsign _ _ _)
  · exact absurd h (hsign _ _ _)
  · have := padded_injective 4 h
    omega

private theorem monthChars_inj {p q : Partition} (hp : p.month < 100) (hq : q.month < 100) :
    p.monthChars = q.monthChars ↔ p.year = q.year ∧ p.month = q.month := by
  constructor
  · intro h
    have hlength : (padded 2 p.month).length = (padded 2 q.month).length := by
      rw [length_padded (by decide) hp, length_padded (by decide) hq]
    obtain ⟨hyear, hmonth⟩ := List.append_inj' h hlength
    exact ⟨yearChars_injective hyear, padded_injective 2 hmonth⟩
  · rintro ⟨hyear, hmonth⟩
    rw [monthChars, hyear, hmonth, monthChars]

/-- Partitions of existing months have one name just when they are the same. -/
theorem name_eq_name_iff (pre : String) {p q : Partition} (hp : 1 ≤ p.month ∧ p.month ≤ 12)
    (hq : 1 ≤ q.month ∧ q.month ≤ 12) :
    p.name pre = q.name pre ↔ p.tenant = q.tenant ∧ p.year = q.year ∧ p.month = q.month := by
  have hmonths := monthChars_inj (p := p) (q := q) (by omega) (by omega)
  rw [← String.toList_inj, toList_name, toList_name, ← hmonths]
  constructor
  · exact tenantMark_append_inj p.underscore_not_mem_monthChars q.underscore_not_mem_monthChars
  · rintro ⟨htenant, hmonth⟩
    rw [htenant, hmonth]

/-- A month of a year of five digits, and one of a year whose digits begin in the same way. -/
theorem months_of_long_years_differ :
    let tenant : TenantId := ⟨"a_2024", by decide, by decide⟩
    let february : Partition := ⟨tenant, 10001, 2⟩
    let october : Partition := ⟨tenant, 1000, 10⟩
    (1 ≤ february.month ∧ february.month ≤ 12) ∧ (1 ≤ october.month ∧ october.month ≤ 12) ∧
      february.name "x" = "x_a_2024_1000102" ∧ october.name "x" = "x_a_2024_100010" ∧
      february.name "x" ≠ october.name "x" := by
  intro tenant february october
  have hfebruary : 1 ≤ february.month ∧ february.month ≤ 12 := by decide
  have hoctober : 1 ≤ october.month ∧ october.month ≤ 12 := by decide
  refine ⟨hfebruary, hoctober, by decide +kernel, by decide +kernel, fun h => ?_⟩
  have hsame := (name_eq_name_iff "x" hfebruary hoctober).mp h
  exact absurd hsame.2.1 (by decide)

end Partition

end AuditTrail
