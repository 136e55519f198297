import AuditTrail.Pipeline.Queries
/-!
# Cutoffs

The cutoff of a policy lies whole days before the present. There is one unless it would lie before all instants.
-/

namespace AuditTrail

namespace Instant

variable {t now : Instant} {days : Nat}

/-- Nanoseconds since the start of 1970; those of a leap second run on into the next second. -/
def sinceEpoch (t : Instant) : Int := t.seconds * 1000000000 + t.nanos

/-- Whole days of 86400 seconds lie between two instants, of which the first is in no leap second unless it is the
other one. -/
def DaysBefore (t now : Instant) (days : Nat) : Prop :=
  if days = 0 then t = now
  else t.nanos < 1000000000 ∧ t.sinceEpoch + days * 86400000000000 = now.sinceEpoch

instance (t now : Instant) (days : Nat) : Decidable (t.DaysBefore now days) :=
  inferInstanceAs (Decidable (if days = 0 then t = now else _ ∧ _))

private theorem minusDays?_eq_some : now.minusDays? days = some t ↔ t.DaysBefore now days := by
  have hnanos := now.nanos_lt
  unfold minusDays? DaysBefore sinceEpoch
  split
  · rw [Option.some_inj, eq_comm]
  · rw [ofParts?_eq_some]
    split <;> omega

private theorem exists_daysBefore_iff :
    (∃ t : Instant, t.DaysBefore now days) ↔ (minSecond + days * 86400) * 1000000000 ≤ now.sinceEpoch := by
  have hlast := now.inRange
  have hnanos := now.nanos_lt
  unfold DaysBefore sinceEpoch
  split
  · simp
    omega
  · constructor
    · rintro ⟨t, -, helapsed⟩
      have hfirst := t.inRange.1
      omega
    · intro hfirst
      -- In a leap second, the whole seconds that have passed are one more than the parts say.
      let seconds : Int := now.seconds + (now.nanos / 1000000000 : Nat) - days * 86400
      have hrange : minSecond ≤ seconds ∧ seconds ≤ maxSecond := by omega
      let t : Instant := ⟨seconds, now.nanos % 1000000000, hrange, by omega, by omega⟩
      have hseconds : t.seconds = seconds := rfl
      have hrest : t.nanos = now.nanos % 1000000000 := rfl
      exact ⟨t, by omega, by omega⟩

end Instant

namespace RetentionPolicy

variable {policy : RetentionPolicy} {now cutoff : Instant}

/-- The days of a policy before an instant do not go back beyond the first instant. -/
def InRange (policy : RetentionPolicy) (now : Instant) : Prop :=
  (minSecond + policy.days * 86400) * 1000000000 ≤ now.sinceEpoch

instance (policy : RetentionPolicy) (now : Instant) : Decidable (policy.InRange now) :=
  inferInstanceAs (Decidable (_ ≤ now.sinceEpoch))

theorem cutoff?_eq_some : policy.cutoff? now = some cutoff ↔ cutoff.DaysBefore now policy.days :=
  Instant.minusDays?_eq_some

theorem exists_cutoff_iff : (∃ cutoff, policy.cutoff? now = some cutoff) ↔ policy.InRange now := by
  simp only [cutoff?_eq_some]
  exact Instant.exists_daysBefore_iff

theorem cutoff?_eq_none : policy.cutoff? now = none ↔ ¬policy.InRange now := by
  rw [← exists_cutoff_iff, ← Option.isSome_iff_exists, Option.not_isSome_iff_eq_none]

end RetentionPolicy

end AuditTrail
