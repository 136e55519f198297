import AuditTrail.Proofs.Time.Calendar
import AuditTrail.Time.Text
import Mathlib.Data.List.TakeWhile
/-!
# Dates and the instants of a day

A text that is read as a date alone is not read as an instant. Every date that exists in the years of
instants has a first instant and a last microsecond, and the instants of that date lie between them, but for
a leap second at the end of the day.
-/

namespace AuditTrail

/-! ## Texts of dates -/

private theorem takeNumber_split {width n : Nat} {cs rest : List Char} (h : takeNumber width cs = some (n, rest)) :
    ∃ ds, cs = ds ++ rest ∧ ∀ c ∈ ds, c.isDigit = true := by
  unfold takeNumber at h
  dsimp only at h
  split at h
  · cases h
  · obtain ⟨-, rfl⟩ := Prod.mk.inj (Option.some.inj h)
    have hdigits := (List.takeWhile_prefix Char.isDigit).trans (List.take_prefix width cs)
    exact ⟨_, (List.prefix_iff_eq_append.mp hdigits).symm, fun _ => List.mem_takeWhile_imp⟩

private theorem dropChar_eq_some {c : Char} {cs rest : List Char} : dropChar c cs = some rest ↔ cs = c :: rest := by
  cases cs with
  | nil => simp [dropChar]
  | cons d cs =>
    unfold dropChar
    split
    · rename_i h
      simp [h]
    · rename_i h
      simp [h]

/-- A text that keeps its colons, if it has any, up to the point where it was read to. -/
def KeepsColon (cs rest : List Char) : Prop := ':' ∈ cs → ':' ∈ rest

namespace KeepsColon

variable {cs rest : List Char}

theorem trimLeft (cs : List Char) : KeepsColon cs (Text.trimLeft cs) := by
  intro h
  rw [← List.takeWhile_append_dropWhile (p := Text.isBlank) (l := cs), List.mem_append] at h
  rcases h with h | h
  · exact absurd (List.mem_takeWhile_imp h) (by decide)
  · exact h

theorem takeNumber {width n : Nat} (h : AuditTrail.takeNumber width cs = some (n, rest)) :
    KeepsColon cs rest := by
  obtain ⟨ds, rfl, hds⟩ := takeNumber_split h
  intro hcolon
  rcases List.mem_append.mp hcolon with hmem | hmem
  · exact absurd (hds _ hmem) (by decide)
  · exact hmem

private theorem dropDash (h : dropChar '-' cs = some rest) : KeepsColon cs rest := by
  rw [dropChar_eq_some.mp h]
  intro hcolon
  simpa using hcolon

theorem takePart {n : Nat} (h : Date.takePart cs = some (n, rest)) : KeepsColon cs rest :=
  fun hcolon => takeNumber h (trimLeft cs hcolon)

theorem takeYear {year : Int} (h : Date.takeYear cs = some (year, rest)) : KeepsColon cs rest := by
  intro hcolon
  have htrimmed := trimLeft cs hcolon
  unfold Date.takeYear at h
  split at h <;> obtain ⟨⟨n, after⟩, hread, heq⟩ := Option.map_eq_some_iff.mp h <;>
    obtain ⟨-, rfl⟩ := Prod.mk.inj heq
  · rename_i hsign
    rw [hsign] at htrimmed
    exact takeNumber hread (by simpa using htrimmed)
  · rename_i hsign
    rw [hsign] at htrimmed
    exact takeNumber hread (by simpa using htrimmed)
  · exact takeNumber hread htrimmed

theorem take {d : Date} (h : Date.take id cs = some (d, rest)) : KeepsColon cs rest := by
  unfold Date.take at h
  obtain ⟨⟨year, cs₁⟩, hyear, h⟩ := Option.bind_eq_some_iff.mp h
  obtain ⟨cs₂, hdash, h⟩ := Option.bind_eq_some_iff.mp h
  obtain ⟨⟨month, cs₃⟩, hmonth, h⟩ := Option.bind_eq_some_iff.mp h
  obtain ⟨cs₄, hdash', h⟩ := Option.bind_eq_some_iff.mp h
  obtain ⟨⟨day, cs₅⟩, hday, h⟩ := Option.bind_eq_some_iff.mp h
  obtain ⟨-, rfl⟩ := Prod.mk.inj (Option.some.inj h)
  intro hcolon
  exact takePart hday (dropDash hdash' (takePart hmonth (dropDash hdash (takeYear hyear hcolon))))

end KeepsColon

private theorem takeFixed_suffix {width n : Nat} {cs rest : List Char} (h : takeFixed width cs = some (n, rest)) :
    rest <:+ cs := by
  unfold takeFixed at h
  split at h
  · obtain ⟨ds, rfl, -⟩ := takeNumber_split h
    exact List.suffix_append ds rest
  · cases h

private theorem dropChar_suffix {c : Char} {cs rest : List Char} (h : dropChar c cs = some rest) : rest <:+ cs := by
  rw [dropChar_eq_some.mp h]
  exact List.suffix_cons c rest

private theorem dropTimeMark_suffix {cs rest : List Char} (h : dropTimeMark cs = some rest) : rest <:+ cs := by
  unfold dropTimeMark at h
  split at h <;> cases h <;> exact List.suffix_cons _ _

private theorem Instant.colon_mem_of_ofRfc3339? {s : String} {t : Instant} (h : Instant.ofRfc3339? s = some t) :
    ':' ∈ s.toList := by
  unfold Instant.ofRfc3339? at h
  obtain ⟨⟨year, cs₁⟩, hyear, h⟩ := Option.bind_eq_some_iff.mp h
  obtain ⟨cs₂, hdash, h⟩ := Option.bind_eq_some_iff.mp h
  obtain ⟨⟨month, cs₃⟩, hmonth, h⟩ := Option.bind_eq_some_iff.mp h
  obtain ⟨cs₄, hdash', h⟩ := Option.bind_eq_some_iff.mp h
  obtain ⟨⟨day, cs₅⟩, hday, h⟩ := Option.bind_eq_some_iff.mp h
  obtain ⟨cs₆, hmark, h⟩ := Option.bind_eq_some_iff.mp h
  obtain ⟨⟨hour, cs₇⟩, hhour, h⟩ := Option.bind_eq_some_iff.mp h
  obtain ⟨cs₈, hcolon, -⟩ := Option.bind_eq_some_iff.mp h
  have hmem : ':' ∈ cs₇ := by simp [dropChar_eq_some.mp hcolon]
  have hdate : cs₇ <:+ cs₄ :=
    (takeFixed_suffix hhour).trans ((dropTimeMark_suffix hmark).trans (takeFixed_suffix hday))
  have hmonth' : cs₄ <:+ cs₂ := (dropChar_suffix hdash').trans (takeFixed_suffix hmonth)
  have hyear' : cs₂ <:+ s.toList := (dropChar_suffix hdash).trans (takeFixed_suffix hyear)
  exact (hdate.trans (hmonth'.trans hyear')).subset hmem

theorem Date.valid_of_ofText? {s : String} {d : Date} (h : Date.ofText? s = some d) :
    d.Valid ∧ minYear ≤ d.year ∧ d.year ≤ maxYear := by
  unfold Date.ofText? at h
  split at h
  · split at h
    · rename_i hdate
      exact Option.some.inj h ▸ hdate
    · cases h
  · cases h

theorem Instant.ofRfc3339?_eq_none_of_date {s : String} {d : Date} (h : Date.ofText? s = some d) :
    Instant.ofRfc3339? s = none := by
  cases hread : Instant.ofRfc3339? s with
  | none => rfl
  | some t =>
    have hcolon := Instant.colon_mem_of_ofRfc3339? hread
    unfold Date.ofText? at h
    split at h
    · rename_i htake
      exact absurd (KeepsColon.take htake hcolon) (List.not_mem_nil)
    · cases h

/-! ## The instants of a day -/

private theorem Date.toDays_bounds {d : Date} (h : d.Valid) {lo hi : Int} (hlo : lo ≤ d.year) (hhi : d.year ≤ hi) :
    (Date.mk lo 1 1).toDays ≤ d.toDays ∧ d.toDays < (Date.mk (hi + 1) 1 1).toDays := by
  have hyear : yearOfDay (d.toDays + epochDay) = d.year := congrArg Date.year (ofDays_toDays h)
  have hbounds := yearOfDay_bounds (d.toDays + epochDay)
  rw [hyear] at hbounds
  have hstart (year : Int) : (Date.mk year 1 1).toDays = daysBeforeYear year - epochDay := by
    simp [toDays, daysBeforeMonth]
  have hfirst := daysBeforeYear_mono hlo
  have hlast := daysBeforeYear_mono (show d.year + 1 ≤ hi + 1 by omega)
  rw [hstart, hstart]
  omega

namespace Instant

theorem le_iff (a b : Instant) :
    a ≤ b ↔ a.seconds < b.seconds ∨ (a.seconds = b.seconds ∧ a.nanos ≤ b.nanos) := by
  change Instant.lt b a = false ↔ _
  simp only [Instant.lt, Bool.or_eq_false_iff, decide_eq_false_iff_not, Bool.and_eq_false_iff,
    beq_eq_false_iff_ne]
  omega

/-- The time of day that a date and a time without an offset stand for. -/
theorem ofLocal?_utc {d : Date} (h : d.Valid) (hlo : minYear ≤ d.year) (hhi : d.year ≤ maxYear)
    (hour minute second nanos : Nat) (hhour : hour ≤ 23) (hminute : minute ≤ 59) (hsecond : second ≤ 59)
    (hnanos : nanos ≤ 999999999) :
    ∃ t, ofLocal? d hour minute second nanos 0 = some t ∧
      t.seconds = d.toDays * 86400 + (hour * 3600 + minute * 60 + second : Nat) ∧ t.nanos = nanos := by
  obtain ⟨hfirst, hlast⟩ := Date.toDays_bounds h hlo hhi
  have hrange : minSecond ≤ d.toDays * 86400 + (hour * 3600 + minute * 60 + second : Nat) ∧
      d.toDays * 86400 + (hour * 3600 + minute * 60 + second : Nat) ≤ maxSecond := by
    unfold minSecond maxSecond
    omega
  refine ⟨⟨_, nanos, hrange, by omega, by omega⟩, ?_, rfl, rfl⟩
  have hdate : ¬(¬d.Valid ∨ d.year < minYear ∨ maxYear < d.year) := by
    simp only [h, not_true_eq_false, false_or, not_or]
    omega
  have htime : ¬(23 < hour ∨ 59 < minute ∨ 60 < second ∨ 999999999 < nanos) := by omega
  have hleap : second ≠ 60 := by omega
  have hseconds : d.toDays * 86400 + (hour * 3600 + minute * 60 : Nat) + (second : Int) - 0 * 60 =
      d.toDays * 86400 + (hour * 3600 + minute * 60 + second : Nat) := by omega
  rw [ofLocal?, if_neg hdate, if_neg htime]
  simp only [hleap, if_false, hseconds]
  rw [ofParts?, dif_pos ⟨hrange, by omega, by omega⟩]

private theorem date_eq_iff {d : Date} (h : d.Valid) (t : Instant) :
    t.date = d ↔ d.toDays * 86400 ≤ t.seconds ∧ t.seconds < d.toDays * 86400 + 86400 := by
  have hday : t.date = d ↔ t.seconds / 86400 = d.toDays := by
    unfold date
    constructor
    · intro hdate
      rw [← hdate, Date.toDays_ofDays]
    · intro hdays
      rw [hdays, Date.ofDays_toDays h]
  rw [hday]
  omega

def EndsDay (t : Instant) : Prop := t.secondOfDay = 86399 ∧ 1000000000 ≤ t.nanos

/-- Of the instants of whole microseconds, those from the first to the last microsecond of a day are those of
the day, but for a leap second at its end. -/
theorem between_iff {d : Date} (h : d.Valid) {first last t : Instant}
    (hfirst : first.seconds = d.toDays * 86400 ∧ first.nanos = 0)
    (hlast : last.seconds = d.toDays * 86400 + 86399 ∧ last.nanos = 999999000) (ht : t.nanos % 1000 = 0) :
    first ≤ t ∧ t ≤ last ↔ t.date = d ∧ ¬t.EndsDay := by
  rw [le_iff, le_iff, date_eq_iff h, EndsDay, secondOfDay]
  omega

end Instant

end AuditTrail
