import AuditTrail.Proofs.Event.Submission
import AuditTrail.Proofs.Message.RoundTrip
import AuditTrail.Proofs.Worker.Applied
import Mathlib.Data.String.Basic
/-!
# Which texts are messages

`Message.Written` says, without the reader, what structure of a text a message is written as: by names or by
position, with fields that may be missing and members that are left aside. `Message.decode_iff` says that a
text is taken for a message just when it is written so and the message is sound.
-/

namespace AuditTrail

open Json

namespace TenantId

private theorem parse_eq_ok {s : String} {t : TenantId} : TenantId.parse s = .ok t ↔ s = t.name := by
  constructor
  · intro h
    unfold TenantId.parse at h
    split at h
    · split at h
      · cases h
        rfl
      · cases h
    · cases h
  · rintro rfl
    exact t.parse_name

/-- A text of 1 to 64 letters, digits, underscores and dashes of ASCII. -/
def IsName (s : String) : Prop :=
  1 ≤ s.length ∧ s.length ≤ 64 ∧ ∀ c ∈ s.toList,
    'A' ≤ c ∧ c ≤ 'Z' ∨ 'a' ≤ c ∧ c ≤ 'z' ∨ '0' ≤ c ∧ c ≤ '9' ∨ c = '_' ∨ c = '-'

private theorem allowsChar_iff {c : Char} : allowsChar c = true ↔
    'A' ≤ c ∧ c ≤ 'Z' ∨ 'a' ≤ c ∧ c ≤ 'z' ∨ '0' ≤ c ∧ c ≤ '9' ∨ c = '_' ∨ c = '-' := by
  have hupper : c.isUpper = decide ('A' ≤ c ∧ c ≤ 'Z') := rfl
  have hlower : c.isLower = (decide ('a' ≤ c) && decide (c ≤ 'z')) := rfl
  have hdigit : c.isDigit = (decide ('0' ≤ c) && decide (c ≤ '9')) := rfl
  have hletter : c.isAlpha = (c.isUpper || c.isLower) := rfl
  simp only [allowsChar, isAlphanumeric, hletter, hupper, hlower, hdigit, Bool.or_eq_true, Bool.and_eq_true,
    decide_eq_true_eq, beq_iff_eq]
  constructor <;> intro h <;> grind

private theorem utf8Size_of_allowsChar {c : Char} (h : allowsChar c = true) : c.utf8Size = 1 := by
  have hc : c.val ≤ 127 := by
    rw [allowsChar_iff] at h
    rcases h with ⟨-, h⟩ | ⟨-, h⟩ | ⟨-, h⟩ | rfl | rfl
    · exact UInt32.le_trans h (by decide)
    · exact UInt32.le_trans h (by decide)
    · exact UInt32.le_trans h (by decide)
    · decide
    · decide
  exact if_pos hc

private theorem utf8ByteSize_of_allowsChar {s : String} (h : ∀ c ∈ s.toList, allowsChar c = true) :
    s.utf8ByteSize = s.length := by
  have hchars (cs : List Char) (h : ∀ c ∈ cs, allowsChar c = true) : String.utf8Len cs = cs.length := by
    induction cs with
    | nil => rfl
    | cons c rest ih =>
      rw [String.utf8Len_cons, ih fun d hd => h d (by simp [hd]), utf8Size_of_allowsChar (h c (by simp)),
        List.length_cons]
  have hlength := hchars s.toList h
  rwa [← String.utf8ByteSize_ofList, String.ofList_toList, String.length_toList] at hlength

private theorem isName_iff {s : String} : IsName s ↔ ∃ t : TenantId, t.name = s := by
  have hlength (hchars : ∀ c ∈ s.toList, allowsChar c = true) :
      allowsLength s = true ↔ 1 ≤ s.length ∧ s.length ≤ 64 := by
    simp [allowsLength, utf8ByteSize_of_allowsChar hchars, maxLength]
  constructor
  · rintro ⟨hleast, hmost, hchars⟩
    have hchars : ∀ c ∈ s.toList, allowsChar c = true := fun c hc => allowsChar_iff.mpr (hchars c hc)
    exact ⟨⟨s, (hlength hchars).mpr ⟨hleast, hmost⟩, List.all_eq_true.mpr hchars⟩, rfl⟩
  · rintro ⟨t, rfl⟩
    have hchars := List.all_eq_true.mp t.chars_ok
    obtain ⟨hleast, hmost⟩ := (hlength hchars).mp t.length_ok
    exact ⟨hleast, hmost, fun c hc => allowsChar_iff.mp (hchars c hc)⟩

end TenantId

namespace Json

def IsInstant (x : Instant) (t : Tree) : Prop := ∃ s, IsText s t ∧ Instant.ofText? s = some x

namespace Reader

variable {depth : Nat} {t : Tree}

private theorem tenantId_eq_some {id : TenantId} : tenantId depth t = some id ↔ IsText id.name t := by
  have hname (s : String) : (TenantId.parse s).toOption = some id ↔ s = id.name := by
    rw [← TenantId.parse_eq_ok]
    cases TenantId.parse s <;> simp [Except.toOption]
  simp only [tenantId, andThen_eq_some, text_eq_some, hname, exists_eq_right]

private theorem instant_eq_some {x : Instant} : Reader.instant depth t = some x ↔ IsInstant x t := by
  simp only [Reader.instant, andThen_eq_some, text_eq_some, IsInstant]

private theorem severity_eq_some {s : Severity} : severity (depth + 1) t = some s ↔ IsWord s.word t := by
  refine word_eq_some fun w => ?_
  constructor
  · intro h
    unfold Severity.ofWord? at h
    split at h <;> cases h <;> rfl
  · rintro rfl
    exact s.ofWord?_word

private theorem kind_eq_some {k : MessageKind} : word MessageKind.ofWord? (depth + 1) t = some k ↔ IsWord k.word t := by
  refine word_eq_some fun w => ?_
  constructor
  · intro h
    unfold MessageKind.ofWord? at h
    split at h <;> cases h <;> rfl
  · rintro rfl
    exact k.ofWord?_word

end Reader

end Json

namespace Event

/-- The fields that an event of a message is written as. -/
structure WrittenAs (given : String → Option Tree) (e : Event) : Prop where
  texts : ∀ p ∈ [("id", e.id), ("action", e.action), ("resource_type", e.resourceType),
    ("resource_id", e.resourceId), ("message", e.message)], Holds given p.1 (IsText p.2)
  textsOrEmpty : ∀ p ∈ [("user_id", e.userId), ("session_id", e.sessionId), ("ip_address", e.ipAddress),
    ("user_agent", e.userAgent)], HoldsOr given p.1 (IsText p.2) (p.2 = "")
  tenant : Holds given "tenant_id" (IsText e.tenant.name)
  severity : Holds given "severity" (IsWord e.severity.word)
  blobs : ∀ p ∈ [("before_state", e.beforeState), ("after_state", e.afterState), ("metadata", e.metadata)],
    HoldsOr given p.1 (IsBlob Message.maxBlobDepth p.2) (p.2 = none)
  times : ∀ p ∈ [("timestamp", e.timestamp), ("created_at", e.createdAt), ("updated_at", e.updatedAt)],
    Holds given p.1 (IsInstant p.2)

/-- The structure that an event of a message is written as. -/
def Written (e : Event) (t : Tree) : Prop := ∃ given, Gives fieldNames t given ∧ e.WrittenAs given

private theorem read_eq_some {e : Event} {t : Tree} : read (Message.maxBlobDepth + 1) t = some e ↔ e.Written t := by
  refine bind_fields_eq_some fun f given hf => ?_
  have hseverity (s : Severity) (t : Tree) :
      Reader.severity Message.maxBlobDepth t = some s ↔ IsWord s.word t := Reader.severity_eq_some
  -- From the first field on, so that each of the others is visited once.
  simp (disch := decide) only [↓bind_eq_some, hf.required_eq_some, hf.withDefault_eq_some,
    Reader.text_eq_some, Reader.tenantId_eq_some, Reader.instant_eq_some, hseverity, Reader.blob,
    Reader.optional_json_eq_some]
  constructor
  · rintro ⟨id, hid, tenant, htenant, userId, huser, sessionId, hsession, ipAddress, hip, userAgent, hagent,
      action, haction, resourceType, htype, resourceId, hresource, severity, hseverity, message, hmessage,
      beforeState, hbefore, afterState, hafter, metadata, hmetadata, timestamp, htimestamp, createdAt,
      hcreated, updatedAt, hupdated, h⟩
    cases h
    refine ⟨?_, ?_, htenant, hseverity, ?_, ?_⟩
    · simp only [List.forall_mem_cons]
      exact ⟨hid, haction, htype, hresource, hmessage, by simp⟩
    · simp only [List.forall_mem_cons]
      exact ⟨huser, hsession, hip, hagent, by simp⟩
    · simp only [List.forall_mem_cons]
      exact ⟨hbefore, hafter, hmetadata, by simp⟩
    · simp only [List.forall_mem_cons]
      exact ⟨htimestamp, hcreated, hupdated, by simp⟩
  · rintro ⟨htexts, hempty, htenant, hseverity, hblobs, htimes⟩
    simp only [List.forall_mem_cons] at htexts hempty hblobs htimes
    obtain ⟨hid, haction, htype, hresource, hmessage, -⟩ := htexts
    obtain ⟨huser, hsession, hip, hagent, -⟩ := hempty
    obtain ⟨hbefore, hafter, hmetadata, -⟩ := hblobs
    obtain ⟨htimestamp, hcreated, hupdated, -⟩ := htimes
    exact ⟨_, hid, _, htenant, _, huser, _, hsession, _, hip, _, hagent, _, haction, _, htype, _, hresource,
      _, hseverity, _, hmessage, _, hbefore, _, hafter, _, hmetadata, _, htimestamp, _, hcreated, _, hupdated,
      rfl⟩

private theorem Written.read_blobs {e : Event} {t : Tree} (h : e.Written t) :
    ∀ v ∈ e.blobs, ReadBlob Message.maxBlobDepth v := by
  obtain ⟨given, -, hwritten⟩ := h
  have hblob {name : String} {v : Option Json}
      (h : HoldsOr given name (IsBlob Message.maxBlobDepth v) (v = none)) :
      ∀ w ∈ v, ReadBlob Message.maxBlobDepth w := by
    unfold HoldsOr at h
    split at h
    · exact h.read
    · simp [h]
  have hblobs := hwritten.blobs
  simp only [List.forall_mem_cons] at hblobs
  obtain ⟨hbefore, hafter, hmetadata, -⟩ := hblobs
  intro v hv
  simp only [blobs, List.mem_append, Option.mem_toList] at hv
  rcases hv with (hv | hv) | hv
  · exact hblob hbefore v hv
  · exact hblob hafter v hv
  · exact hblob hmetadata v hv

end Event

namespace Message

/-- The fields that a message is written as. -/
structure WrittenAs (given : String → Option Tree) (m : Message) : Prop where
  kind : Holds given "type" (IsWord m.kind.word)
  tenant : Holds given "tenant_id" (IsText m.tenant.name)
  events : HoldsOr given "logs"
    (fun t => ∃ items, t = .array items ∧ List.Forall₂ (fun t e => Event.Written e t) items m.events)
    (m.events = [])
  eventId : HoldsOr given "log_id" (IsTextOrNull m.eventId) (m.eventId = none)
  sentAt : Holds given "timestamp" (IsInstant m.sentAt)

/-- The structure that a message is written as. -/
def Written (m : Message) (t : Tree) : Prop :=
  ∃ given, Gives ["type", "tenant_id", "logs", "log_id", "timestamp"] t given ∧ m.WrittenAs given

private theorem read_eq_some {m : Message} {t : Tree} : read maxDepth t = some m ↔ m.Written t := by
  change read (maxBlobDepth + 2 + 1) t = some m ↔ m.Written t
  refine bind_fields_eq_some fun f given hf => ?_
  have hkind (k : MessageKind) (t : Tree) :
      Reader.word MessageKind.ofWord? (maxBlobDepth + 2) t = some k ↔ IsWord k.word t := Reader.kind_eq_some
  simp (disch := decide) only [↓bind_eq_some, hf.required_eq_some, hf.withDefault_eq_some,
    Reader.tenantId_eq_some, Reader.instant_eq_some, hkind, Reader.list_eq_some,
    Reader.optional_text_eq_some, Event.read_eq_some]
  constructor
  · rintro ⟨kind, hkind, tenant, htenant, events, hevents, eventId, hid, sentAt, hsent, h⟩
    cases h
    exact ⟨hkind, htenant, hevents, hid, hsent⟩
  · rintro ⟨hkind, htenant, hevents, hid, hsent⟩
    exact ⟨_, hkind, _, htenant, _, hevents, _, hid, _, hsent, rfl⟩

/-- A text is taken for a message just when it is written as one that is sound. -/
private theorem decode_iff {body : String} {m : Message} :
    decode body = .ok m ↔ (∃ t, Tree.parse? body = some t ∧ m.Written t) ∧ m.Sound := by
  have hread : read.ofText body = some m ↔ ∃ t, Tree.parse? body = some t ∧ m.Written t := by
    simp only [← read_eq_some]
    exact Option.bind_eq_some_iff
  rw [← hread, ← check_iff_sound, decode]
  cases hm : read.ofText body with
  | none => simp
  | some k =>
    rw [Option.elim_some, Option.some_inj, check_eq_ok]
    constructor
    · rintro ⟨hproblem, rfl⟩
      exact ⟨rfl, check_eq_ok.mpr ⟨hproblem, rfl⟩⟩
    · rintro ⟨rfl, hcheck⟩
      exact ⟨(check_eq_ok.mp hcheck).1, rfl⟩

private theorem Written.events_written {m : Message} {t : Tree} (h : m.Written t) :
    ∀ e ∈ m.events, ∃ u, e.Written u := by
  obtain ⟨given, -, hwritten⟩ := h
  have hevents := hwritten.events
  unfold HoldsOr at hevents
  split at hevents
  · obtain ⟨items, -, hitems⟩ := hevents
    exact exists_of_forall₂ hitems
  · simp [hevents]

private theorem decode_encode_of_decode {body : String} {m : Message} (h : decode body = .ok m)
    (hwords : ∀ e ∈ m.events, e.hasWords = true) : decode m.encode = .ok m := by
  obtain ⟨⟨t, -, hwritten⟩, hsound⟩ := decode_iff.mp h
  have hread (e : Event) (he : e ∈ m.events) : e.SoundBlobs ∧ e.nesting ≤ maxBlobDepth := by
    obtain ⟨u, hu⟩ := hwritten.events_written e he
    exact Event.sound_of_read hu.read_blobs (hwords e he)
  have hnest : Event.NestWithin maxBlobDepth m.events := fun e he => (hread e he).2
  rw [decode_encode fun e he => (hread e he).1, if_pos hnest, check_iff_sound.mpr hsound]

/-- Whatever the text, a message that is read from it is sound, its tenant has a proper identifier, what it
asks for is clear, and it is written and read again without change. And each text that a sound message is
written as, of a tenant with any proper identifier, is read as that message. -/
theorem decode_gate (body : String) :
    (∀ m, decode body = .ok m → m.Sound ∧ TenantId.IsName m.tenant.name ∧
      m.action = .ok (if m.kind = .delete then .delete (m.eventId.getD "") else .upsert m.events) ∧
      ((∀ e ∈ m.events, e.hasWords = true) → decode m.encode = .ok m)) ∧
    (∀ t m, Tree.parse? body = some t → m.Written t → m.Sound → decode body = .ok m) ∧
    ∀ s, TenantId.IsName s → ∃ id : TenantId, id.name = s := by
  refine ⟨?_, fun t m hparse hwritten hsound => decode_iff.mpr ⟨⟨t, hparse, hwritten⟩, hsound⟩,
    fun s => TenantId.isName_iff.mp⟩
  intro m h
  exact ⟨(decode_iff.mp h).2, TenantId.isName_iff.mpr ⟨_, rfl⟩, action_of_check (check_of_decode h),
    decode_encode_of_decode h⟩

/-- A deletion with its fields by position, and its kind as the name of a member. -/
def positionalDeletion : Json :=
  array [object [("DELETE", null)], text "acme", array [], text "e2", instant .epoch]

theorem positionalDeletion_decoded :
    let m : Message := ⟨.delete, ⟨"acme", by decide, by decide⟩, [], some "e2", .epoch⟩
    decode positionalDeletion.compact = .ok m ∧ m.action = .ok (.delete "e2") ∧ decode m.encode = .ok m := by
  intro m
  have hparse : Tree.parse? positionalDeletion.compact = some (Tree.ofJson positionalDeletion) :=
    parse?_compact (by decide)
  have hwritten : m.Written (Tree.ofJson positionalDeletion) := by
    refine ⟨_, .array _ (by decide), ⟨_, rfl, .inr rfl⟩, ⟨_, rfl, rfl⟩, ⟨[], rfl, .nil⟩, .inr ⟨"e2", rfl, rfl⟩,
      ⟨_, rfl, _, rfl, Instant.ofText?_written .epoch⟩⟩
  have hsound : m.Sound := ⟨by simp [m], by simp [m], fun _ => ⟨"e2", rfl, by decide⟩, by simp [m]⟩
  have hdecode := (decode_gate positionalDeletion.compact).2.1 _ m hparse hwritten hsound
  obtain ⟨-, -, haction, hagain⟩ := (decode_gate positionalDeletion.compact).1 m hdecode
  exact ⟨hdecode, haction, hagain (by simp [m])⟩

end Message

end AuditTrail
