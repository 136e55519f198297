import AuditTrail.Proofs.Number.Digits
import AuditTrail.Proofs.Time.Calendar
/-!
# Written instants are read back

`Instant.ofText?_written`: the text of an instant stands for that instant and no other. This holds for years
of any sign and length, for leap seconds and for fractions of three, six and nine digits.
-/

namespace AuditTrail

private theorem isBlank_digit {c : Char} (h : c.isDigit = true) : Text.isBlank c = false := by
  have hc : 48 ≤ c.toNat ∧ c.toNat ≤ 57 := by
    simp only [Char.isDigit, Bool.and_eq_true, decide_eq_true_eq] at h
    exact ⟨h.1, h.2⟩
  simp only [Text.isBlank, Bool.or_eq_false_iff, Bool.and_eq_false_iff, beq_eq_false_iff_ne,
    decide_eq_false_iff_not]
  omega

private theorem trimLeft_cons {c : Char} (h : Text.isBlank c = false) (cs : List Char) :
    Text.trimLeft (c :: cs) = c :: cs := by simp [Text.trimLeft, h]

private theorem padded_cons (width n : Nat) :
    ∃ c cs, padded width n = c :: cs ∧ c.isDigit = true := by
  cases h : padded width n with
  | nil => exact absurd h (padded_ne_nil width n)
  | cons c cs =>
    have hc : c ∈ padded width n := by simp [h]
    exact ⟨c, cs, rfl, isDigit_padded hc⟩

private theorem trimLeft_padded (width n : Nat) (rest : List Char) :
    Text.trimLeft (padded width n ++ rest) = padded width n ++ rest := by
  obtain ⟨c, cs, h, hc⟩ := padded_cons width n
  rw [h, List.cons_append]
  exact trimLeft_cons (isBlank_digit hc) _

namespace Date

private theorem takePart_padded {n : Nat} (h : n < 100) (rest : List Char) :
    takePart (padded 2 n ++ rest) = some (n, rest) := by
  rw [takePart, trimLeft_padded]
  exact takeNumber_padded (by decide) h rest

private theorem takeNumber_signed (n : Nat) (rest : List Char) :
    takeNumber (padded 4 n ++ '-' :: rest).length (padded 4 n ++ '-' :: rest) =
      some (n, '-' :: rest) := by
  rw [takeNumber_append (fun _ => isDigit_padded) (padded_ne_nil _ _) (by simp) (.inr (by simp)),
    foldl_padded]

private theorem takeYear_yearChars (year : Int) (rest : List Char) :
    takeYear (yearChars year ++ '-' :: rest) = some (year, '-' :: rest) := by
  unfold yearChars
  split
  · rename_i h
    rw [List.cons_append, takeYear, trimLeft_cons (by decide)]
    simp only [takeNumber_signed, Option.map_some]
    congr 2
    omega
  · split
    · rename_i h
      rw [List.cons_append, takeYear, trimLeft_cons (by decide)]
      simp only [takeNumber_signed, Option.map_some]
      congr 2
      omega
    · rename_i h h'
      obtain ⟨c, cs, hcs, hc⟩ := padded_cons 4 year.natAbs
      have hlt : year.natAbs < 10 ^ 4 := by
        rw [show 10 ^ 4 = 10000 from rfl]
        omega
      have hread := takeNumber_padded (by decide) hlt ('-' :: rest)
      rw [takeYear, trimLeft_padded]
      rw [hcs] at hread ⊢
      rw [List.cons_append] at hread ⊢
      split
      · rename_i heq
        simp only [List.cons.injEq] at heq
        rw [heq.1] at hc
        exact absurd hc (by decide)
      · rename_i heq
        simp only [List.cons.injEq] at heq
        rw [heq.1] at hc
        exact absurd hc (by decide)
      · have hnonneg : (year.natAbs : Int) = year := Int.natAbs_of_nonneg (by omega)
        simp only [hread, Option.map_some, hnonneg]

private theorem take_chars {d : Date} (hmonth : d.month < 100) (hday : d.day < 100) (rest : List Char) :
    take Text.trimLeft (d.chars ++ 'T' :: rest) = some (d, 'T' :: rest) := by
  have hdash (cs : List Char) : dropChar '-' (Text.trimLeft ('-' :: cs)) = some cs := by
    rw [trimLeft_cons (by decide)]
    rfl
  simp only [take, chars, List.append_assoc, List.cons_append, takeYear_yearChars, hdash,
    takePart_padded hmonth, takePart_padded hday, Option.bind_eq_bind, Option.bind_some]

end Date

namespace Instant

private theorem takeFraction_fractionChars {n : Nat} (h : n < 1000000000) :
    takeFraction (fractionChars n ++ ['Z']) = some (n, ['Z']) := by
  have hread {width k : Nat} (hw : 0 < width) (hle : width ≤ 9) (hk : k < 10 ^ width) :
      takeNanos (padded width k ++ ['Z']) = some (k * 10 ^ (9 - width), ['Z']) := by
    have hlen := length_padded hw hk
    rw [takeNanos, takeNumber_append (fun _ => isDigit_padded) (padded_ne_nil _ _) (by omega)
      (.inr (by simp)), foldl_padded]
    simp [hlen, show 'Z'.isDigit = false from rfl]
  unfold fractionChars
  split
  · rename_i hzero
    rw [hzero]
    rfl
  · split
    · rename_i hmod
      rw [List.cons_append, takeFraction, hread (by decide) (by decide) (by omega)]
      congr 2
      omega
    · split
      · rename_i hmod
        rw [List.cons_append, takeFraction, hread (by decide) (by decide) (by omega)]
        congr 2
        omega
      · rw [List.cons_append, takeFraction, hread (by decide) (by decide) h, Nat.sub_self, Nat.pow_zero,
          Nat.mul_one]

private theorem secondOfDay_lt (t : Instant) : t.secondOfDay < 86400 := by
  unfold secondOfDay
  omega

theorem valid_date (t : Instant) : t.date.Valid := Date.valid_ofDays _

theorem year_date (t : Instant) : minYear ≤ t.date.year ∧ t.date.year ≤ maxYear := by
  have h := t.inRange
  unfold minSecond maxSecond at h
  exact Date.year_ofDays_bounds (by omega) (by omega)

private theorem ofLocal?_parts (t : Instant) :
    ofLocal? t.date (t.secondOfDay / 3600) (t.secondOfDay / 60 % 60) t.writtenSecond t.fraction 0 =
      some t := by
  have hday := t.secondOfDay_lt
  have hnanos := t.nanos_lt
  have hleap := t.leap
  have hyear := t.year_date
  have hsplit : t.date.toDays * 86400 + t.secondOfDay = t.seconds := by
    rw [date, Date.toDays_ofDays]
    unfold secondOfDay
    omega
  have hsecond : t.writtenSecond = 60 ↔ 1000000000 ≤ t.nanos := by
    unfold writtenSecond
    unfold secondOfDay at hday ⊢
    omega
  have hbounds : ¬(23 < t.secondOfDay / 3600 ∨ 59 < t.secondOfDay / 60 % 60 ∨ 60 < t.writtenSecond ∨
      999999999 < t.fraction) := by
    unfold writtenSecond fraction
    unfold secondOfDay at hday ⊢
    omega
  have hdate : ¬(¬t.date.Valid ∨ t.date.year < minYear ∨ maxYear < t.date.year) := by
    have := t.valid_date
    simp only [this, not_true_eq_false, false_or, not_or]
    omega
  rw [ofLocal?, if_neg hdate, if_neg hbounds]
  have hseconds : t.date.toDays * 86400 +
      ((t.secondOfDay / 3600 * 3600 + t.secondOfDay / 60 % 60 * 60 : Nat) : Int) +
      ((if t.writtenSecond = 60 then 59 else t.writtenSecond : Nat) : Int) - 0 * 60 = t.seconds := by
    split
    · rename_i h
      have := hleap (hsecond.mp h)
      unfold secondOfDay at hsplit ⊢
      omega
    · rename_i h
      rw [hsecond] at h
      unfold writtenSecond
      omega
  have hfraction : (if t.writtenSecond = 60 then t.fraction + 1000000000 else t.fraction) = t.nanos := by
    unfold fraction
    split
    · rename_i h
      have := hsecond.mp h
      omega
    · rename_i h
      rw [hsecond] at h
      omega
  simp only [hseconds, hfraction, ofParts?, t.inRange, hnanos, and_self, true_and]
  rw [dif_pos hleap]

theorem ofText?_written (t : Instant) : ofText? t.written = some t := by
  have hday := t.secondOfDay_lt
  have hvalid := t.valid_date
  have hmonth : t.date.month < 100 := by
    have := hvalid.2.1
    omega
  have hdate : t.date.day < 100 := by
    have h := hvalid.2.2.2
    have hmax := Date.monthLength_le t.date.year t.date.month
    omega
  have hsecond : t.writtenSecond < 100 := by
    have := t.nanos_lt
    unfold writtenSecond
    omega
  have hfraction : t.fraction < 1000000000 := by
    unfold fraction
    omega
  have hcolon (cs : List Char) : dropChar ':' (Text.trimLeft (':' :: cs)) = some cs := by
    rw [trimLeft_cons (by decide)]
    rfl
  have hoffset : takeOffset (fun cs => some (cs.dropWhile fun c => c == ':' || Text.isBlank c)) ['Z'] =
      some (0, []) := rfl
  simp only [ofText?, written, String.toList_ofList, ofChars?, chars, clockChars, List.append_assoc,
    List.cons_append, Date.take_chars hmonth hdate, dropTimeMark, Option.bind_eq_bind, Option.bind_some,
    Date.takePart_padded (show t.secondOfDay / 3600 < 100 by omega), hcolon,
    Date.takePart_padded (show t.secondOfDay / 60 % 60 < 100 by omega), Date.takePart_padded hsecond,
    takeFraction_fractionChars hfraction]
  rw [show Text.trimLeft ['Z'] = ['Z'] from rfl, if_neg (by decide), hoffset, Option.bind_some,
    if_pos ⟨rfl, by decide⟩]
  exact t.ofLocal?_parts

/-- The start of the second that an instant is in. A leap second stays one. -/
def startOfSecond (t : Instant) : Instant :=
  ⟨t.seconds, t.nanos / 1000000000 * 1000000000, t.inRange, by have := t.nanos_lt; omega,
    fun h => t.leap (by omega)⟩

private theorem written_startOfSecond (t : Instant) : t.startOfSecond.written = t.writtenToSecond := by
  have hsecond : t.startOfSecond.writtenSecond = t.writtenSecond := by
    simp only [writtenSecond, startOfSecond, secondOfDay]
    omega
  have hfraction : t.startOfSecond.fraction = 0 := by
    simp only [fraction, startOfSecond]
    omega
  have hclock : t.startOfSecond.clockChars = t.clockChars := by
    rw [clockChars, clockChars, hsecond]
    rfl
  rw [written, chars, hclock, hfraction, writtenToSecond, fractionChars, if_pos rfl, List.append_nil]

/-- An instant that is written to the second is read back as the start of the second. -/
theorem ofText?_writtenToSecond (t : Instant) : ofText? t.writtenToSecond = some t.startOfSecond := by
  rw [← written_startOfSecond]
  exact ofText?_written _

end Instant

end AuditTrail
