/-!
# Dates and instants

Dates are those of the Gregorian calendar, extended to all years. An instant is a second of universal time and
nanoseconds in it. A leap second is the second before it, the last one of a minute, with a thousand million
nanoseconds more. The years run from -262143 to 262142.
-/

namespace AuditTrail

/-! ## Dates -/

/-- A date; `month` and `day` count from one. -/
structure Date where
  year : Int
  month : Nat
  day : Nat
  deriving DecidableEq, Repr

namespace Date

/-- Every fourth year is a leap year, but of the full centuries only every fourth one. -/
def isLeapYear (year : Int) : Bool :=
  year % 4 == 0 && (year % 100 != 0 || year % 400 == 0)

/-- The lengths of the months of a year. -/
def monthLengths (year : Int) : List Nat :=
  [31, if isLeapYear year then 29 else 28, 31, 30, 31, 30, 31, 31, 30, 31, 30, 31]

/-- The length of a month; zero when there is no such month. -/
def monthLength (year : Int) (month : Nat) : Nat :=
  if month = 0 then 0 else (monthLengths year).getD (month - 1) 0

/-- The month and the day exist. -/
def Valid (d : Date) : Prop :=
  1 ≤ d.month ∧ d.month ≤ 12 ∧ 1 ≤ d.day ∧ d.day ≤ monthLength d.year d.month

instance (d : Date) : Decidable d.Valid := by
  unfold Valid
  infer_instance

/-- The days from the first of January of the year 0 to that of another year. -/
def daysBeforeYear (year : Int) : Int :=
  365 * year + (year + 3) / 4 - (year + 99) / 100 + (year + 399) / 400

def daysBeforeMonth (year : Int) (month : Nat) : Nat :=
  ((monthLengths year).take (month - 1)).foldr (· + ·) 0

/-- The first of January 1970 as a count from the first of January of the year 0. -/
def epochDay : Int := 719528

/-- The days from the first of January 1970 to a date. -/
def toDays (d : Date) : Int :=
  daysBeforeYear d.year + daysBeforeMonth d.year d.month + (d.day - 1 : Int) - epochDay

/-- The year that a day lies in, counted from the first of January of the year 0. The mean length of a
year gives it up to one. -/
def yearOfDay (day : Int) : Int :=
  let guess := day * 400 / 146097
  if day < daysBeforeYear guess then guess - 1
  else if daysBeforeYear (guess + 1) ≤ day then guess + 1
  else guess

/-- Finds the month and the day in it from a count of days, both counted from zero. -/
def splitMonths : List Nat → Nat → Nat × Nat
  | [], day => (0, day)
  | length :: rest, day =>
    if day < length then (0, day)
    else ((splitMonths rest (day - length)).1 + 1, (splitMonths rest (day - length)).2)

/-- The date that lies so many days after the first of January 1970. -/
def ofDays (days : Int) : Date :=
  let day := days + epochDay
  let year := yearOfDay day
  let (month, rest) := splitMonths (monthLengths year) (day - daysBeforeYear year).toNat
  ⟨year, month + 1, rest + 1⟩

end Date

/-! ## Instants -/

/-- The years that instants lie in. -/
def minYear : Int := -262143

def maxYear : Int := 262142

/-- The first second, counted from the start of 1970. -/
def minSecond : Int := (Date.mk minYear 1 1).toDays * 86400

def maxSecond : Int := (Date.mk (maxYear + 1) 1 1).toDays * 86400 - 1

structure Instant where
  /-- Seconds since the start of 1970. -/
  seconds : Int
  nanos : Nat
  inRange : minSecond ≤ seconds ∧ seconds ≤ maxSecond
  nanos_lt : nanos < 2000000000
  leap : 1000000000 ≤ nanos → seconds % 60 = 59
  deriving DecidableEq

namespace Instant

/-- The instant of these parts, if there is one. -/
def ofParts? (seconds : Int) (nanos : Nat) : Option Instant :=
  if h : (minSecond ≤ seconds ∧ seconds ≤ maxSecond) ∧ nanos < 2000000000 ∧
      (1000000000 ≤ nanos → seconds % 60 = 59) then
    some ⟨seconds, nanos, h.1, h.2.1, h.2.2⟩
  else none

theorem ofParts?_eq_some {seconds : Int} {nanos : Nat} {t : Instant} :
    ofParts? seconds nanos = some t ↔ seconds = t.seconds ∧ nanos = t.nanos := by
  unfold ofParts?
  constructor
  · intro h
    split at h
    · cases h
      exact ⟨rfl, rfl⟩
    · cases h
  · rintro ⟨rfl, rfl⟩
    rw [dif_pos ⟨t.inRange, t.nanos_lt, t.leap⟩]

/-- The start of 1970. -/
def epoch : Instant := ⟨0, 0, by decide, by decide, by decide⟩

instance : Inhabited Instant := ⟨epoch⟩

/-- The order of time; a leap second comes after the second before it. -/
protected def lt (a b : Instant) : Bool :=
  decide (a.seconds < b.seconds) || (a.seconds == b.seconds && decide (a.nanos < b.nanos))

instance : LT Instant := ⟨fun a b => Instant.lt a b = true⟩

instance : LE Instant := ⟨fun a b => Instant.lt b a = false⟩

instance (a b : Instant) : Decidable (a < b) := inferInstanceAs (Decidable (_ = true))

instance (a b : Instant) : Decidable (a ≤ b) := inferInstanceAs (Decidable (_ = false))

def date (t : Instant) : Date := Date.ofDays (t.seconds / 86400)

def secondOfDay (t : Instant) : Nat := (t.seconds % 86400).toNat

/-- Microseconds since the start of 1970, rounded down; those of a leap second run on into the next
second. -/
def micros (t : Instant) : Int := t.seconds * 1000000 + (t.nanos / 1000 : Nat)

/-- The instant so many microseconds after the start of 1970, if it is in range. -/
def ofMicros? (n : Int) : Option Instant :=
  ofParts? (n / 1000000) ((n % 1000000).toNat * 1000)

/-- Drops what is finer than a microsecond. -/
def truncate (t : Instant) : Instant :=
  ⟨t.seconds, t.nanos - t.nanos % 1000, t.inRange, by have := t.nanos_lt; omega,
    fun h => t.leap (by omega)⟩

/-- The instant so many days earlier, if it is in range. A leap second counts as the second after it, unless it is
not left at all. -/
def minusDays? (t : Instant) (days : Nat) : Option Instant :=
  if days = 0 then some t
  else
    let leap : Int := if 1000000000 ≤ t.nanos then 1 else 0
    ofParts? (t.seconds + leap - days * 86400) (t.nanos % 1000000000)

/-- The instant of a date and a time of day, given in minutes ahead of universal time. A second of sixty
is a leap second. -/
def ofLocal? (date : Date) (hour minute second nanos : Nat) (offset : Int) : Option Instant :=
  if ¬date.Valid ∨ date.year < minYear ∨ maxYear < date.year then none
  else if 23 < hour ∨ 59 < minute ∨ 60 < second ∨ 999999999 < nanos then none
  else
    let leap := second = 60
    let seconds := date.toDays * 86400 + (hour * 3600 + minute * 60 : Nat) +
      (if leap then 59 else second : Nat) - offset * 60
    ofParts? seconds (if leap then nanos + 1000000000 else nanos)

/-- The first instant of a month, if it is in range. -/
def ofMonth? (year : Int) (month : Nat) : Option Instant :=
  ofLocal? ⟨year, month, 1⟩ 0 0 0 0 0

end Instant

end AuditTrail
