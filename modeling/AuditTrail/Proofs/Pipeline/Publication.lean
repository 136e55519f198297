import AuditTrail.Proofs.Event.Submission
import AuditTrail.Proofs.Message.RoundTrip
import AuditTrail.Proofs.Pipeline.Writes
import AuditTrail.Worker.Cycle
/-!
# Published messages

Writes whose requests were read from texts publish messages that are sound and whose structured values can
be read back. So a worker reads each of them from the queue as it was published, but for those with a
structured value that nests more than 124 levels deep: these it discards.
-/

namespace AuditTrail

open Pipeline

/-- The structured values of an accepted event are those of its request, and nest no deeper than a text. -/
theorem NewEvent.blobs_of_accept {r : NewEvent} {tenant : TenantId} {now : Instant} {freshId : String}
    {e : Event} (hblobs : ∀ v ∈ r.blobs, Json.ReadBlob Json.maxDepth v) (hwords : r.hasWords = true)
    (h : r.accept tenant now freshId = .ok e) : e.SoundBlobs ∧ e.nesting ≤ Json.maxDepth := by
  have hrestates := restates_of_accept h
  have hsame : e.blobs = r.blobs := by
    rw [Event.blobs, blobs, hrestates.beforeState, hrestates.afterState, hrestates.metadata]
  refine Event.sound_of_read (hsame ▸ hblobs) ?_
  rw [Event.hasWords, hsame]
  exact hwords

namespace Write

/-- A write whose requests were read from a body, with integers of 64 bits for numbers in structured
values, and whose fresh identifiers are not empty. -/
def Submitted : Write → Prop
  | create _ request _ freshId =>
    (∃ body, NewEvent.read.ofBytes body = some request) ∧ request.hasWords = true ∧ freshId ≠ ""
  | createAll _ requests _ freshIds =>
    (∃ body, NewEvent.readBatch.ofBytes body = some requests) ∧
      (∀ r ∈ requests, r.hasWords = true) ∧ ∀ i, freshIds i ≠ ""
  | delete _ _ _ => True

/-! ## Events of submitted writes -/

private theorem id_ne_empty_of_accept {r : NewEvent} {tenant : TenantId} {now : Instant} {freshId : String}
    {e : Event} (hfresh : freshId ≠ "") (h : r.accept tenant now freshId = .ok e) : e.id ≠ "" := by
  rw [(NewEvent.accept_eq_ok h).2.1]
  unfold NewEvent.eventId
  split
  · split
    · exact hfresh
    · rename_i hblank
      rintro rfl
      exact hblank rfl
  · exact hfresh

/-- The events that a submitted write asks for can be read back, and their identifiers are not empty. -/
theorem Submitted.sound {w : Write} (h : w.Submitted) {e : Event} (he : w.Asks e) :
    e.SoundBlobs ∧ e.id ≠ "" := by
  cases w with
  | create ctx request now freshId =>
    obtain ⟨⟨body, hbody⟩, hwords, hfresh⟩ := h
    exact ⟨(NewEvent.blobs_of_accept (NewEvent.of_ofBytes hbody) hwords he).1,
      id_ne_empty_of_accept hfresh he⟩
  | createAll ctx requests now freshIds =>
    obtain ⟨⟨body, hbody⟩, hwords, hfresh⟩ := h
    obtain ⟨r, hr, i, haccept⟩ := he
    exact ⟨(NewEvent.blobs_of_accept (NewEvent.of_ofBytes_batch hbody r hr) (hwords r hr) haccept).1,
      id_ne_empty_of_accept (hfresh i) haccept⟩
  | delete ctx id now => exact he.elim

private theorem Submitted.message_sound {w : Write} (h : w.Submitted) {s : RecordStore} {x : Written}
    (hrows : ∀ e ∈ s.rows.events, e.id ≠ "") (hx : w.effect s = .ok x) :
    x.message.SoundBlobs ∧ x.message.check = .ok x.message ∧ ∀ e ∈ x.records.rows.events, e.id ≠ "" := by
  obtain ⟨-, -, hcases⟩ := effect_cases hx
  rcases hcases with ⟨-, hcheck, hevents, hadd⟩ | ⟨_, id, now, -, hmessage, hfound, herase⟩
  · refine ⟨fun e he => (h.sound (hevents e he).2).1, hcheck, ?_⟩
    intro e he
    rcases ((EventTable.addAll_eq_ok hadd).2.2 e).mp he with hold | hnew
    · exact hrows e hold
    · exact (h.sound (hevents e hnew).2).2
  · obtain ⟨e, he⟩ := Option.isSome_iff_exists.mp hfound
    obtain ⟨hmem, hkey⟩ := EventTable.get?_eq_some_iff.mp he
    have hid : id ≠ "" := by
      rw [Event.key, Prod.mk.injEq] at hkey
      exact hkey.2 ▸ hrows e hmem
    rw [hmessage]
    refine ⟨by simp [Message.SoundBlobs, Message.delete], ?_, ?_⟩
    · simp [Message.delete, Message.check, Message.problem?, Message.shapeProblem?, hid]
    · intro d hd
      rw [herase] at hd
      exact hrows d (EventTable.mem_erase.mp hd).1

private theorem decode_published {ws : List Write} (h : ∀ w ∈ ws, w.Submitted) {s : RecordStore}
    (hrows : ∀ e ∈ s.rows.events, e.id ≠ "") {m : Message} (hm : m ∈ published s ws) :
    Message.decode m.encode =
      if Event.NestWithin Message.maxBlobDepth m.events then .ok m else .error .malformed := by
  induction ws generalizing s with
  | nil => cases hm
  | cons w rest ih =>
    have hrest : ∀ v ∈ rest, v.Submitted := fun v hv => h v (by simp [hv])
    unfold published at hm
    split at hm
    · rename_i x hx
      obtain ⟨hblobs, hcheck, hkept⟩ := (h w (by simp)).message_sound hrows hx
      rcases List.mem_cons.mp hm with rfl | hm
      · rw [Message.decode_encode hblobs, hcheck]
      · exact ih hrest hkept hm
    · exact ih hrest hrows hm

end Write

namespace Pipeline

def write (p : Pipeline) (ws : List Write) : Pipeline :=
  ws.foldl (fun p w => (outcome w.perform p).2) p

private theorem queue_write {p : Pipeline} (h : p.outages = .empty) (ws : List Write) :
    (p.write ws).queue.ready =
      p.queue.ready ++ (Write.published p.records ws).map fun m => ⟨m.encode, 0⟩ := by
  induction ws generalizing p with
  | nil => simp [write, Write.published]
  | cons w rest ih =>
    rw [write, List.foldl_cons]
    change (write (outcome w.perform p).2 rest).queue.ready = _
    unfold Write.published
    cases hx : w.effect p.records with
    | ok x =>
      obtain ⟨metrics, hw⟩ := Write.outcome_perform_ok h hx
      rw [hw, ih (by exact h)]
      simp [Queue.send, Queue.sendText]
    | error f =>
      obtain ⟨metrics, hw⟩ := Write.outcome_perform_error h hx
      rw [hw, ih (by exact h)]

private theorem applied_not_discarded (m : Message) (token : String) (p : Pipeline) :
    (StateT.run (m := Id) (do
      match ← (workerBackend.apply m).run with
      | .error _ =>
        workerBackend.count .projectionFailures 1
        return Handling.failed
      | .ok _ =>
        if ← workerBackend.acknowledged token then
          workerBackend.count .messagesAcked 1
          return .acked
        else return .failed) p).1 ≠ .discarded := by
  simp only [StateT.run_bind]
  rcases (StateT.run (workerBackend.apply m).run p : Except Failure Unit × Pipeline) with ⟨_ | _, q⟩
  · intro h
    cases h
  · change (StateT.run (m := Id) (workerBackend.acknowledged token >>= fun b => if b then _ else _) q).1 ≠ _
    rw [StateT.run_bind]
    rcases (StateT.run (workerBackend.acknowledged token) q : Bool × Pipeline) with ⟨_ | _, r⟩
    · intro h
      cases h
    · intro h
      cases h

private theorem handle_discards (d : Delivery) (p : Pipeline) :
    ((workerBackend.handle d).run p).1 = .discarded ↔ ∃ f, Message.decode d.body = .error f := by
  cases hdecode : Message.decode d.body with
  | error f =>
    simp [WorkerBackend.handle, hdecode]
    split <;> rfl
  | ok m =>
    have happlied (q : Pipeline) := applied_not_discarded m d.token q
    simp only [WorkerBackend.handle, hdecode]
    constructor
    · intro h
      split at h
      · exact absurd h (happlied _)
      · exact absurd h (happlied _)
    · rintro ⟨_, ⟨⟩⟩

end Pipeline

/-- Submitted writes put the texts of the messages that they publish onto the queue. A worker reads such a
text as the message that was published, and does not discard it, just when no structured value of an event
nests more than 124 levels deep. Else the text is not readable and the worker discards it. -/
theorem published_message_read_iff (visibility : Nat) (tokens : Nat → String) {ws : List Write}
    (h : ∀ w ∈ ws, w.Submitted) :
    ((Pipeline.new visibility tokens).write ws).queue.ready =
        (Write.published .empty ws).map (fun m => ⟨m.encode, 0⟩) ∧
      ∀ m ∈ Write.published .empty ws,
        (Message.decode m.encode =
          if Event.NestWithin Message.maxBlobDepth m.events then .ok m else .error .malformed) ∧
        ∀ (d : Delivery) (p : Pipeline), d.body = m.encode →
          (((workerBackend.handle d).run p).1 = .discarded ↔
            ¬ Event.NestWithin Message.maxBlobDepth m.events) := by
  refine ⟨queue_write rfl ws, ?_⟩
  intro m hm
  have hnone : ∀ e ∈ RecordStore.empty.rows.events, e.id ≠ "" := by
    intro e he
    cases he
  have hdecode := Write.decode_published h hnone hm
  refine ⟨hdecode, ?_⟩
  intro d p hbody
  rw [handle_discards, hbody, hdecode]
  split
  · rename_i hnest
    simp [hnest]
  · rename_i hnest
    simp [hnest]

/-- Arrays within arrays, so many levels deep. -/
def Json.nestedArrays : Nat → Json
  | 0 => .bool true
  | n + 1 => .array [nestedArrays n]

/-- A sign-in whose metadata nests 125 levels deep. -/
def NewEvent.deepSignIn : NewEvent := { signIn "e1" with metadata := some (Json.nestedArrays 125) }

set_option maxRecDepth 10000 in
/-- A request of 125 levels can be submitted, and a worker discards the message about its event. -/
theorem deepSignIn_discarded :
    let w := Write.create (.ofTenant .acme "") .deepSignIn .epoch "f1"
    (∀ v ∈ [w], v.Submitted) ∧
      ∃ m ∈ Write.published .empty [w], Message.decode m.encode = .error .malformed ∧
        ∀ (d : Delivery) (p : Pipeline), d.body = m.encode →
          ((workerBackend.handle d).run p).1 = .discarded := by
  intro w
  have hbody : NewEvent.read.ofBytes (Text.bytes NewEvent.deepSignIn.toJson.compact) = some .deepSignIn := by
    have hwords : NewEvent.deepSignIn.toJson.numbersAll Json.Number.isWord = true := by decide
    exact Json.Reader.ofBytes_compact hwords
  have hsubmitted : ∀ v ∈ [w], v.Submitted := by
    intro v hv
    rw [List.mem_singleton] at hv
    subst hv
    exact ⟨⟨_, hbody⟩, by decide, by decide⟩
  have hdeep : (Write.published .empty [w]).any (fun m =>
      !decide (Event.NestWithin Message.maxBlobDepth m.events)) = true := by decide +kernel
  obtain ⟨m, hm, hnest⟩ := List.any_eq_true.mp hdeep
  have hnest : ¬ Event.NestWithin Message.maxBlobDepth m.events := by simpa using hnest
  obtain ⟨-, hread⟩ := published_message_read_iff 30000 (fun _ => "") hsubmitted
  obtain ⟨hdecode, hhandle⟩ := hread m hm
  refine ⟨hsubmitted, m, hm, ?_, ?_⟩
  · rw [hdecode, if_neg hnest]
  · intro d p hd
    exact (hhandle d p hd).mpr hnest

end AuditTrail
