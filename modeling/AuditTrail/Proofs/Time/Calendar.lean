import AuditTrail.Time.Instant
import Mathlib.Tactic.ByContra
/-!
# Dates and days

Counting days and naming dates are inverse to each other. `Date.ofDays` always yields a date that exists,
and `Date.toDays` counts back to the same day, for all days before and after 1970.
-/

namespace AuditTrail

namespace Date

def yearLength (year : Int) : Int := if isLeapYear year then 366 else 365

private theorem daysBeforeYear_succ (year : Int) :
    daysBeforeYear (year + 1) = daysBeforeYear year + yearLength year := by
  unfold yearLength
  cases h : isLeapYear year <;>
    simp only [isLeapYear, Bool.and_eq_false_iff, Bool.and_eq_true, Bool.or_eq_true, Bool.or_eq_false_iff,
      beq_iff_eq, bne_iff_ne, beq_eq_false_iff_ne, bne_eq_false_iff_eq] at h <;>
    simp only [daysBeforeYear, Bool.false_eq_true, if_false, if_true] <;> omega

private theorem guess_bounds (day : Int) :
    daysBeforeYear (day * 400 / 146097 - 1) ≤ day ∧ day < daysBeforeYear (day * 400 / 146097 + 2) := by
  simp only [daysBeforeYear]
  omega

theorem yearOfDay_bounds (day : Int) :
    daysBeforeYear (yearOfDay day) ≤ day ∧ day < daysBeforeYear (yearOfDay day + 1) := by
  have hguess := guess_bounds day
  unfold yearOfDay
  dsimp only
  split
  · rename_i h
    exact ⟨hguess.1, by simpa using h⟩
  · rename_i h
    split
    · rename_i h'
      refine ⟨h', ?_⟩
      rw [Int.add_assoc]
      exact hguess.2
    · omega

theorem daysBeforeYear_mono {a b : Int} (h : a ≤ b) : daysBeforeYear a ≤ daysBeforeYear b := by
  simp only [daysBeforeYear]
  omega

/-! ## Months -/

private theorem splitMonths_spec (lengths : List Nat) (day : Nat) (h : day < lengths.foldr (· + ·) 0) :
    (splitMonths lengths day).1 < lengths.length ∧
      (splitMonths lengths day).2 < lengths.getD (splitMonths lengths day).1 0 ∧
      (lengths.take (splitMonths lengths day).1).foldr (· + ·) 0 + (splitMonths lengths day).2 = day := by
  induction lengths generalizing day with
  | nil => simp at h
  | cons length rest ih =>
    rw [splitMonths]
    split
    · rename_i hlt
      simpa using hlt
    · rename_i hge
      have hrest : day - length < rest.foldr (· + ·) 0 := by
        simp only [List.foldr_cons] at h
        omega
      obtain ⟨hi, hr, hsum⟩ := ih (day - length) hrest
      refine ⟨by simpa using hi, by simpa using hr, ?_⟩
      simp only [List.take_succ_cons, List.foldr_cons]
      omega

private theorem length_monthLengths (year : Int) : (monthLengths year).length = 12 := rfl

private theorem sum_monthLengths (year : Int) :
    ((monthLengths year).foldr (· + ·) 0 : Nat) = yearLength year := by
  unfold yearLength
  cases h : isLeapYear year <;> simp [monthLengths, h]

theorem monthLength_le (year : Int) (month : Nat) : monthLength year month ≤ 31 := by
  have hall : ∀ n ∈ monthLengths year, n ≤ 31 := by
    intro n hn
    simp only [monthLengths, List.mem_cons, List.not_mem_nil, or_false] at hn
    split at hn <;> omega
  unfold monthLength
  split
  · decide
  · rw [List.getD_eq_getElem?_getD]
    cases h : (monthLengths year)[month - 1]? with
    | none => simp
    | some n => exact hall n (List.mem_of_getElem? h)

private theorem dayOfYear_lt (day : Int) :
    (day - daysBeforeYear (yearOfDay day)).toNat < (monthLengths (yearOfDay day)).foldr (· + ·) 0 := by
  have hday := yearOfDay_bounds day
  have hnext := daysBeforeYear_succ (yearOfDay day)
  have hsum := sum_monthLengths (yearOfDay day)
  omega

theorem valid_ofDays (days : Int) : (ofDays days).Valid := by
  have hlt := dayOfYear_lt (days + epochDay)
  obtain ⟨hmonth, hday, -⟩ := splitMonths_spec _ _ hlt
  rw [length_monthLengths] at hmonth
  simp only [Valid, ofDays, monthLength, Nat.add_one_ne_zero, if_false, Nat.add_sub_cancel]
  omega

theorem toDays_ofDays (days : Int) : (ofDays days).toDays = days := by
  have hlt := dayOfYear_lt (days + epochDay)
  have hyear := (yearOfDay_bounds (days + epochDay)).1
  obtain ⟨-, -, hsum⟩ := splitMonths_spec _ _ hlt
  simp only [toDays, ofDays, daysBeforeMonth, Nat.add_sub_cancel]
  omega

/-! ## Days of dates -/

private theorem yearOfDay_eq {day year : Int} (hfrom : daysBeforeYear year ≤ day)
    (hto : day < daysBeforeYear (year + 1)) : yearOfDay day = year := by
  obtain ⟨hlo, hhi⟩ := yearOfDay_bounds day
  by_contra hne
  rcases Int.lt_or_gt_of_ne hne with h | h
  · have := daysBeforeYear_mono (show yearOfDay day + 1 ≤ year by omega)
    omega
  · have := daysBeforeYear_mono (show year + 1 ≤ yearOfDay day by omega)
    omega

private theorem splitMonths_take {lengths : List Nat} {i day : Nat} (hi : i < lengths.length)
    (hday : day < lengths.getD i 0) :
    splitMonths lengths ((lengths.take i).foldr (· + ·) 0 + day) = (i, day) ∧
      (lengths.take i).foldr (· + ·) 0 + day < lengths.foldr (· + ·) 0 := by
  induction lengths generalizing i with
  | nil => simp at hi
  | cons length rest ih =>
    cases i with
    | zero =>
      have hlt : day < length := by simpa using hday
      simp [splitMonths, hlt]
      omega
    | succ i =>
      obtain ⟨hsplit, hsum⟩ := ih (by simpa using hi) (by simpa using hday)
      simp only [List.take_succ_cons, List.foldr_cons]
      generalize (rest.take i).foldr (· + ·) 0 = before at hsplit hsum ⊢
      have hrest : length + before + day - length = before + day := by omega
      refine ⟨?_, by omega⟩
      rw [splitMonths, if_neg (by omega), hrest, hsplit]

theorem ofDays_toDays {d : Date} (h : d.Valid) : ofDays d.toDays = d := by
  obtain ⟨year, month, day⟩ := d
  obtain ⟨hfirst, hlast, hday, hlength⟩ := h
  obtain ⟨i, rfl⟩ : ∃ i, month = i + 1 := Nat.exists_eq_add_of_le' hfirst
  obtain ⟨k, rfl⟩ : ∃ k, day = k + 1 := Nat.exists_eq_add_of_le' hday
  simp only [monthLength, Nat.add_one_ne_zero, if_false, Nat.add_sub_cancel] at hlength
  obtain ⟨hsplit, hwithin⟩ :=
    splitMonths_take (show i < (monthLengths year).length from Nat.lt_of_succ_le hlast)
      (Nat.lt_of_succ_le hlength)
  have hsum := sum_monthLengths year
  have hnext := daysBeforeYear_succ year
  have hcount : (Date.mk year (i + 1) (k + 1)).toDays + epochDay =
      daysBeforeYear year + (((monthLengths year).take i).foldr (· + ·) 0 + k : Nat) := by
    simp only [toDays, daysBeforeMonth, Nat.add_sub_cancel]
    omega
  have hyear : yearOfDay ((Date.mk year (i + 1) (k + 1)).toDays + epochDay) = year :=
    yearOfDay_eq (by omega) (by omega)
  have hoffset : ((Date.mk year (i + 1) (k + 1)).toDays + epochDay - daysBeforeYear year).toNat =
      ((monthLengths year).take i).foldr (· + ·) 0 + k := by omega
  simp only [ofDays, hyear, hoffset, hsplit]

/-- The year of a date lies between those of two days that it lies between. -/
theorem year_ofDays_bounds {days : Int} {lo hi : Int} (hlo : (Date.mk lo 1 1).toDays ≤ days)
    (hhi : days < (Date.mk (hi + 1) 1 1).toDays) : lo ≤ (ofDays days).year ∧ (ofDays days).year ≤ hi := by
  have hyear := yearOfDay_bounds (days + epochDay)
  have hstart (year : Int) : (Date.mk year 1 1).toDays = daysBeforeYear year - epochDay := by
    simp [toDays, daysBeforeMonth]
  rw [hstart] at hlo hhi
  change lo ≤ yearOfDay (days + epochDay) ∧ yearOfDay (days + epochDay) ≤ hi
  refine ⟨?_, ?_⟩
  · by_contra h
    have := daysBeforeYear_mono (show yearOfDay (days + epochDay) + 1 ≤ lo by omega)
    omega
  · by_contra h
    have := daysBeforeYear_mono (show hi + 1 ≤ yearOfDay (days + epochDay) by omega)
    omega

end Date

end AuditTrail
