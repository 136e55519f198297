import AuditTrail.Filter.Parameters
import AuditTrail.Proofs.Index.Rows
import AuditTrail.Proofs.Time.Dates
/-!
# Days as spans of time

A date alone as the first and as the last bound of a filter stands for the whole day in universal time, as far
as recorded events are concerned: their times are kept to the microsecond, and the last bound is the last
microsecond of the day. An event in the leap second that may follow it is of the same day and not found.
-/

namespace AuditTrail

private theorem timeBound_date {s : String} {d : Date} (h : Date.ofText? (Text.trim s) = some d) :
    ∃ first last, timeBound s false = .ok first ∧ timeBound s true = .ok last ∧
      (first.seconds = d.toDays * 86400 ∧ first.nanos = 0) ∧
      (last.seconds = d.toDays * 86400 + 86399 ∧ last.nanos = 999999000) := by
  obtain ⟨hvalid, hlo, hhi⟩ := Date.valid_of_ofText? h
  obtain ⟨first, hfirst, hseconds, hnanos⟩ := Instant.ofLocal?_utc hvalid hlo hhi 0 0 0 0
    (by decide) (by decide) (by decide) (by decide)
  obtain ⟨last, hlast, hseconds', hnanos'⟩ := Instant.ofLocal?_utc hvalid hlo hhi 23 59 59 lastNanos
    (by decide) (by decide) (by decide) (by decide)
  have hnone := Instant.ofRfc3339?_eq_none_of_date h
  refine ⟨first, last, ?_, ?_, ⟨by omega, hnanos⟩, ⟨by omega, hnanos'⟩⟩
  · simp [timeBound, hnone, h, hfirst]
  · simp [timeBound, hnone, h, hlast]

namespace Filter

/-- A filter with two bounds of time and no other criterion. -/
def between (first last : Instant) (page pageSize : Int) : Filter :=
  { Filter.all page pageSize with startTime := some first, endTime := some last }

private theorem admits_between (first last : Instant) (page pageSize : Int) (e : Event) :
    (between first last page pageSize).admits e = true ↔ first ≤ e.timestamp ∧ e.timestamp ≤ last := by
  simp [admits, between, Filter.all, meets]

/-- A date alone as both bounds of a filter finds the recorded events of that day, but for those in a leap
second at its end. -/
theorem day_admits_iff {s : String} {d : Date} (hs : Date.ofText? (Text.trim s) = some d) :
    ∃ first last, timeBound s false = .ok first ∧ timeBound s true = .ok last ∧
      ∀ (page pageSize : Int) (r : NewEvent) (tenant : TenantId) (now : Instant) (freshId : String) (e : Event),
        r.accept tenant now freshId = .ok e →
        ((between first last page pageSize).admits e = true ↔
          e.timestamp.date = d ∧ ¬e.timestamp.EndsDay) := by
  obtain ⟨first, last, hfirst, hlast, hstart, hend⟩ := timeBound_date hs
  refine ⟨first, last, hfirst, hlast, fun page pageSize r tenant now freshId e haccept => ?_⟩
  have hmicros : e.timestamp.nanos % 1000 = 0 := by
    rw [(NewEvent.restates_of_accept haccept).timestamp, Instant.truncate_nanos]
    omega
  rw [admits_between]
  exact Instant.between_iff (Date.valid_of_ofText? hs).1 hstart hend hmicros

/-- A sign-in in the leap second at the end of 2016 is on the last of December and is not found there. -/
theorem leapSignIn_not_on_its_day :
    let e : Event := { Event.signIn "e1" with timestamp := NewEvent.leapSecond }
    Date.ofText? (Text.trim "2016-12-31") = some ⟨2016, 12, 31⟩ ∧
      NewEvent.leapSignIn.accept .acme .epoch "f1" = .ok e ∧ e.timestamp.date = ⟨2016, 12, 31⟩ ∧
      ∃ first last, timeBound "2016-12-31" false = .ok first ∧ timeBound "2016-12-31" true = .ok last ∧
        (between first last 1 10).admits e = false := by
  intro e
  have hdate : Date.ofText? (Text.trim "2016-12-31") = some ⟨2016, 12, 31⟩ := by decide +kernel
  have haccept : NewEvent.leapSignIn.accept .acme .epoch "f1" = .ok e := rfl
  obtain ⟨first, last, hfirst, hlast, hadmits⟩ := day_admits_iff hdate
  have hiff := hadmits 1 10 NewEvent.leapSignIn .acme .epoch "f1" e haccept
  have hends : e.timestamp.EndsDay := ⟨by decide, by decide⟩
  refine ⟨hdate, haccept, by decide, first, last, hfirst, hlast, ?_⟩
  rw [← Bool.not_eq_true, hiff]
  exact fun h => h.2 hends

end Filter

end AuditTrail
