import AuditTrail.Index.Row
import AuditTrail.Proofs.Pipeline.Publication
/-!
# Rows of events

What the row of an event is read back as: its texts and structured values as they were, and its times as the
instants so many microseconds after the start of 1970. That count has no place for a leap second, whose
microseconds are those of the second after it. So the event of a submitted request is read back from its row
just when its times are none.
-/

namespace AuditTrail

/-! ## Times in microseconds -/

namespace Instant

@[simp] theorem truncate_seconds (t : Instant) : t.truncate.seconds = t.seconds := rfl

@[simp] theorem truncate_nanos (t : Instant) : t.truncate.nanos = t.nanos - t.nanos % 1000 := rfl

private theorem ofMicros?_micros (t : Instant) :
    ofMicros? t.micros =
      ofParts? (t.seconds + (t.nanos / 1000000000 : Nat)) (t.nanos % 1000000000 / 1000 * 1000) := by
  have hseconds : t.micros / 1000000 = t.seconds + (t.nanos / 1000000000 : Nat) := by
    unfold micros
    omega
  have hnanos : (t.micros % 1000000).toNat * 1000 = t.nanos % 1000000000 / 1000 * 1000 := by
    unfold micros
    omega
  rw [ofMicros?, hseconds, hnanos]

private theorem ofMicros?_micros_truncate (t : Instant) :
    ofMicros? t.truncate.micros = some t.truncate ↔ t.nanos < 1000000000 := by
  have hlt := t.nanos_lt
  rw [ofMicros?_micros, ofParts?_eq_some, truncate_seconds, truncate_nanos]
  omega

end Instant

theorem Severity.parse_word (s : Severity) : Severity.parse s.word = .ok s := by cases s <;> rfl

namespace IndexRow

private theorem readTime_eq_ok {micros : Int} {t : Instant} :
    readTime micros = .ok t ↔ Instant.ofMicros? micros = some t := by
  unfold readTime
  cases Instant.ofMicros? micros <;> simp

/-! ## Structured values -/

private theorem readBlob_compact {v : Option Json} (h : ∀ w ∈ v, Json.SoundBlob w)
    (hnesting : Json.blobNesting v ≤ Json.maxDepth) : readBlob (v.map Json.compact) = .ok v := by
  cases v with
  | none => rfl
  | some w =>
    have htext : Json.Reader.ofText Json.Reader.json w.compact = some w := by
      refine (Json.Reader.ofText_compact (h w rfl).words).trans ?_
      exact (Json.Reader.json_ofJson w _ (h w rfl).ordered).trans (if_pos hnesting)
    simp [readBlob, htext]

/-! ## Events -/

section

variable {e : Event} (h : e.SoundBlobs) (hnesting : e.nesting ≤ Json.maxDepth) (indexedAt : Instant)

include h hnesting

/-- The row of an event holds the event but for its times, which are read from their microseconds. -/
theorem toEvent_ofEvent :
    (ofEvent e indexedAt).toEvent = (do
      let timestamp ← readTime e.timestamp.micros
      let createdAt ← readTime e.createdAt.micros
      let updatedAt ← readTime e.updatedAt.micros
      return { e with timestamp, createdAt, updatedAt }) := by
  obtain ⟨hdeepBefore, hrest⟩ := Nat.max_le.mp hnesting
  obtain ⟨hdeepAfter, hdeepMetadata⟩ := Nat.max_le.mp hrest
  simp only [toEvent, ofEvent, TenantId.parse_name, Severity.parse_word,
    readBlob_compact h.beforeState hdeepBefore, readBlob_compact h.afterState hdeepAfter,
    readBlob_compact h.metadata hdeepMetadata]
  rfl

private theorem toEvent_ofEvent_eq_ok {d : Event} :
    (ofEvent e indexedAt).toEvent = .ok d ↔
      Instant.ofMicros? e.timestamp.micros = some d.timestamp ∧
      Instant.ofMicros? e.createdAt.micros = some d.createdAt ∧
      Instant.ofMicros? e.updatedAt.micros = some d.updatedAt ∧
      d = { e with timestamp := d.timestamp, createdAt := d.createdAt, updatedAt := d.updatedAt } := by
  simp only [toEvent_ofEvent h hnesting, Failure.bind_eq_ok, readTime_eq_ok]
  constructor
  · rintro ⟨timestamp, htimestamp, createdAt, hcreated, updatedAt, hupdated, heq⟩
    cases heq
    exact ⟨htimestamp, hcreated, hupdated, rfl⟩
  · rintro ⟨htimestamp, hcreated, hupdated, heq⟩
    exact ⟨_, htimestamp, _, hcreated, _, hupdated, congrArg Except.ok heq.symm⟩

end

end IndexRow

namespace NewEvent

/-- A request that was read from a body, by itself or in a batch. -/
inductive Received (r : NewEvent) : Prop where
  | alone (body : List UInt8) (h : read.ofBytes body = some r)
  | inBatch (body : List UInt8) (requests : List NewEvent) (h : readBatch.ofBytes body = some requests)
      (hr : r ∈ requests)

theorem Received.blobs {r : NewEvent} (h : r.Received) : ∀ v ∈ r.blobs, Json.ReadBlob Json.maxDepth v := by
  cases h with
  | alone body h => exact of_ofBytes h
  | inBatch body requests h hr => exact of_ofBytes_batch h r hr

/-- The event that a request asks for is read back from its row just when neither the time of the request
nor that of the clock is a leap second. Whatever is read back differs from the event in its times at most,
and those are the instants so many microseconds after the start of 1970. -/
theorem row_read_back_iff {r : NewEvent} (hread : r.Received) (hwords : r.hasWords = true)
    {tenant : TenantId} {now : Instant} {freshId : String} {e : Event}
    (h : r.accept tenant now freshId = .ok e) (indexedAt : Instant) :
    ((IndexRow.ofEvent e indexedAt).toEvent = .ok e ↔
      r.timestamp.nanos < 1000000000 ∧ now.nanos < 1000000000) ∧
    ∀ d, (IndexRow.ofEvent e indexedAt).toEvent = .ok d →
      Instant.ofMicros? e.timestamp.micros = some d.timestamp ∧
      Instant.ofMicros? e.createdAt.micros = some d.createdAt ∧
      Instant.ofMicros? e.updatedAt.micros = some d.updatedAt ∧
      d = { e with timestamp := d.timestamp, createdAt := d.createdAt, updatedAt := d.updatedAt } := by
  obtain ⟨hsound, hnesting⟩ := blobs_of_accept hread.blobs hwords h
  obtain ⟨-, -, hrestates, hcreated, hupdated⟩ := accept_eq_ok h
  have hback {t kept : Instant} (h : kept = t.truncate) :
      Instant.ofMicros? kept.micros = some kept ↔ t.nanos < 1000000000 :=
    h ▸ Instant.ofMicros?_micros_truncate t
  refine ⟨?_, fun d => (IndexRow.toEvent_ofEvent_eq_ok hsound hnesting indexedAt).mp⟩
  rw [IndexRow.toEvent_ofEvent_eq_ok hsound hnesting, hback hrestates.timestamp, hback hcreated, hback hupdated]
  constructor
  · rintro ⟨hrequest, hclock, -, -⟩
    exact ⟨hrequest, hclock⟩
  · rintro ⟨hrequest, hclock⟩
    exact ⟨hrequest, hclock, hclock, rfl⟩

/-- Half a second into the leap second at the end of 2016. -/
def leapSecond : Instant := ⟨1483228799, 1500000000, by decide, by decide, by decide⟩

def leapSignIn : NewEvent := { signIn "e1" with timestamp := leapSecond }

set_option maxRecDepth 10000 in
/-- The sign-in can be submitted, and its row is read back as a sign-in of half a second into 2017. -/
theorem leapSignIn_row_differs :
    let e : Event := { Event.signIn "e1" with timestamp := leapSecond }
    leapSignIn.Received ∧ leapSignIn.hasWords = true ∧ leapSignIn.accept .acme .epoch "f1" = .ok e ∧
      (IndexRow.ofEvent e .epoch).toEvent ≠ .ok e ∧
      (IndexRow.ofEvent e .epoch).toEvent = .ok { e with
        timestamp := ⟨1483228800, 500000000, by decide, by decide, by decide⟩ } := by
  intro e
  have hbody : read.ofBytes (Text.bytes leapSignIn.toJson.compact) = some leapSignIn := by
    have hwords : leapSignIn.toJson.numbersAll Json.Number.isWord = true := by decide
    exact Json.Reader.ofBytes_compact hwords
  have hread : leapSignIn.Received := .alone _ hbody
  have hwords : leapSignIn.hasWords = true := by decide
  have haccept : leapSignIn.accept .acme .epoch "f1" = .ok e := rfl
  obtain ⟨hback, -⟩ := row_read_back_iff hread hwords haccept .epoch
  refine ⟨hread, hwords, haccept, fun h => absurd (hback.mp h).1 (by decide), ?_⟩
  obtain ⟨hsound, hnesting⟩ := blobs_of_accept hread.blobs hwords haccept
  exact (IndexRow.toEvent_ofEvent_eq_ok hsound hnesting .epoch).mpr ⟨by decide, by decide, by decide, rfl⟩

end NewEvent

end AuditTrail
