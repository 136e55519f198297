import AuditTrail.Columnar.Command
import AuditTrail.Proofs.Index.Names
/-!
# What the pattern of a tenant matches

A pattern of plain characters and six digits is read as it is meant, and the names that it matches are those
that go on after the plain characters with six digits. So the pattern of a tenant matches the names of the
tenant's own partitions, if their years have four digits, and of no other ones.
-/

namespace AuditTrail.Columnar.Pattern

/-! ## Reading -/

/-- A character that stands for itself, once. -/
def plainItem (c : Char) : PatternItem := ⟨c, c, 1⟩

/-- A text that does not go on with a brace. -/
def Unbraced (cs : List Char) : Prop := ∀ c ∈ cs.head?, c ≠ '\x7b'

private theorem readTimes_of_unbraced {cs : List Char} (h : Unbraced cs) : readTimes cs = some (1, cs) := by
  unfold readTimes
  split
  · exact absurd rfl (h _ rfl)
  · rfl

private theorem readItem_plain {c : Char} (hc : isPlain c = true) {cs : List Char} (h : Unbraced cs) :
    readItem (c :: cs) = some (plainItem c, cs) := by
  unfold readItem
  split
  · rename_i heq
    obtain ⟨rfl, -⟩ := List.cons.inj heq
    exact absurd hc (by decide)
  · rename_i heq
    obtain ⟨rfl, rfl⟩ := List.cons.inj heq
    rw [hc, readTimes_of_unbraced h]
    rfl
  · rename_i heq
    cases heq

private theorem readItems_plain {cs : List Char} (hcs : ∀ c ∈ cs, isPlain c = true) {rest : List Char}
    (hrest : Unbraced rest) (fuel : Nat) :
    readItems (cs.length + fuel) (cs ++ rest) = (readItems fuel rest).map (cs.map plainItem ++ ·) := by
  induction cs with
  | nil => simp
  | cons c cs ih =>
    have hc := hcs c (by simp)
    have hplain : ∀ d ∈ cs, isPlain d = true := fun d hd => hcs d (by simp [hd])
    have hnext : Unbraced (cs ++ rest) := by
      cases cs with
      | nil => exact hrest
      | cons d cs =>
        rintro e he rfl
        obtain rfl := Option.some.inj he
        exact absurd (hplain _ List.mem_cons_self) (by decide)
    have hdollar : c :: (cs ++ rest) ≠ ['$'] := by
      intro heq
      obtain ⟨rfl, -⟩ := List.cons.inj heq
      exact absurd hc (by decide)
    rw [List.length_cons, Nat.add_right_comm, List.cons_append, readItems.eq_3 _ _ hdollar,
      readItem_plain hc hnext]
    simp only [Option.bind_eq_bind, Option.bind_some, ih hplain]
    cases readItems fuel rest <;> rfl

/-- The end of a pattern for six digits. -/
def sixDigits : List Char := ['[', '0', '-', '9', ']', '\x7b', '6', '\x7d', '$']

private theorem parse?_plain {pattern : String} {cs : List Char} (h : pattern.toList = '^' :: (cs ++ sixDigits))
    (hcs : ∀ c ∈ cs, isPlain c = true) :
    parse? pattern = some (cs.map plainItem ++ [⟨'0', '9', 6⟩]) := by
  have hend : readItems sixDigits.length sixDigits = some [⟨'0', '9', 6⟩] := by decide +kernel
  rw [parse?, h]
  simp only [List.length_append]
  rw [readItems_plain hcs (by simp [Unbraced, sixDigits]), hend]
  rfl

/-! ## Matching -/

private theorem accepts_plain (cs : List Char) (items : List PatternItem) (name : List Char) :
    accepts (cs.map plainItem ++ items) name = true ↔
      ∃ rest, name = cs ++ rest ∧ accepts items rest = true := by
  induction cs generalizing name with
  | nil => simp
  | cons c cs ih =>
    cases name with
    | nil => simp [accepts, plainItem]
    | cons d name =>
      have hchar : (c ≤ d ∧ d ≤ c) ↔ d = c := ⟨fun h => Char.le_antisymm h.2 h.1, fun h => by simp [h]⟩
      simp [accepts, plainItem, ih, hchar, and_assoc]

private theorem accepts_sixDigits (name : List Char) :
    accepts [⟨'0', '9', 6⟩] name = true ↔ name.length = 6 ∧ ∀ c ∈ name, c.isDigit = true := by
  have hdigit (c : Char) : ('0' ≤ c ∧ c ≤ '9') ↔ c.isDigit = true := by
    simp only [Char.isDigit, Bool.and_eq_true, decide_eq_true_eq]
    rfl
  simp only [accepts, Bool.and_eq_true, beq_iff_eq, List.length_take, List.all_eq_true, decide_eq_true_eq,
    hdigit, List.isEmpty_iff, List.drop_eq_nil_iff]
  constructor
  · rintro ⟨⟨hlength, hdigits⟩, hend⟩
    rw [List.take_of_length_le hend] at hdigits
    exact ⟨by omega, hdigits⟩
  · rintro ⟨hlength, hdigits⟩
    exact ⟨⟨by omega, fun c hc => hdigits c (List.mem_of_mem_take hc)⟩, by omega⟩

/-! ## The pattern of a tenant -/

variable {pre : String} {tenant : TenantId}

private theorem isPlain_of_mem_tenantMark (hpre : pre.toList.all isPlain = true) {c : Char}
    (hc : c ∈ (Partition.tenantMark pre tenant).toList) : isPlain c = true := by
  have hunderscore : isPlain '_' = true := by decide
  simp only [Partition.toList_tenantMark, List.mem_append, List.mem_cons, List.not_mem_nil,
    or_false] at hc
  rcases hc with (hc | rfl | hc) | rfl
  · exact List.all_eq_true.mp hpre c hc
  · exact hunderscore
  · exact List.all_eq_true.mp tenant.chars_ok c hc
  · exact hunderscore

private theorem test_tablePattern (hpre : pre.toList.all isPlain = true) (name : String) :
    test (Partition.tablePattern pre tenant) name = true ↔
      ∃ digits, name.toList = (Partition.tenantMark pre tenant).toList ++ digits ∧
        digits.length = 6 ∧ ∀ c ∈ digits, c.isDigit = true := by
  have htext : (Partition.tablePattern pre tenant).toList =
      '^' :: ((Partition.tenantMark pre tenant).toList ++ sixDigits) := by
    rw [Partition.tablePattern, String.toList_append, String.toList_append, List.append_assoc]
    rfl
  rw [test, parse?_plain htext fun c => isPlain_of_mem_tenantMark hpre, Option.any_some, accepts_plain]
  simp only [accepts_sixDigits]

/-- A partition has six digits after the mark of its tenant just when its year has at most four digits and no
sign. -/
private theorem sixDigits_monthChars_iff {p : Partition} (hmonth : p.month < 100) :
    (p.monthChars.length = 6 ∧ ∀ c ∈ p.monthChars, c.isDigit = true) ↔ 0 ≤ p.year ∧ p.year ≤ 9999 := by
  have hlength : (padded 2 p.month).length = 2 := length_padded (by decide) hmonth
  rw [Partition.monthChars, Partition.yearChars]
  split
  · rename_i hyear
    have hsign : ¬ ∀ c ∈ '-' :: padded 3 p.year.natAbs ++ padded 2 p.month, c.isDigit = true := by
      intro h
      exact absurd (h '-' (by simp)) (by decide)
    simp only [hsign, and_false, false_iff]
    omega
  · rename_i hyear
    have hdigits : ∀ c ∈ padded 4 p.year.natAbs ++ padded 2 p.month, c.isDigit = true := by
      intro c hc
      rcases List.mem_append.mp hc with hc | hc
      · exact isDigit_padded hc
      · exact isDigit_padded hc
    have hwidth : (padded 4 p.year.natAbs).length = 4 ↔ p.year.natAbs < 10 ^ 4 :=
      length_padded_eq_iff (by decide)
    rw [and_iff_left hdigits, List.length_append, hlength]
    omega

/-- The pattern of a tenant matches the names of the tenant's own partitions, as long as their years have four
digits. -/
theorem test_name_iff (hpre : pre.toList.all isPlain = true) (tenant : TenantId) {p : Partition}
    (hmonth : p.month < 100) :
    test (Partition.tablePattern pre tenant) (p.name pre) = true ↔
      tenant = p.tenant ∧ 0 ≤ p.year ∧ p.year ≤ 9999 := by
  rw [test_tablePattern hpre, ← sixDigits_monthChars_iff hmonth, Partition.toList_name]
  constructor
  · rintro ⟨digits, hname, hlength, hdigits⟩
    have hunderscore : '_' ∉ digits := fun hmem => absurd (hdigits '_' hmem) (by decide)
    obtain ⟨htenant, rfl⟩ :=
      Partition.tenantMark_append_inj p.underscore_not_mem_monthChars hunderscore hname
    exact ⟨htenant.symm, hlength, hdigits⟩
  · rintro ⟨rfl, hlength, hdigits⟩
    exact ⟨_, rfl, hlength, hdigits⟩

end AuditTrail.Columnar.Pattern
