import AuditTrail.Message
import AuditTrail.Proofs.Json.Structures
import AuditTrail.Proofs.Time.Written
/-!
# Messages are read back

`Message.decode_encode`: the text of a message stands for the message, unless a structured value of one of its
events nests more than 124 levels deep. Then the text is not readable at all, since a text may nest 127
levels and the message itself takes three of them.
-/

namespace AuditTrail

open Json

theorem TenantId.parse_name (t : TenantId) : TenantId.parse t.name = .ok t := by
  rw [TenantId.parse, dif_pos t.length_ok, dif_pos t.chars_ok]

theorem Severity.ofWord?_word (s : Severity) : Severity.ofWord? s.word = some s := by cases s <;> rfl

theorem MessageKind.ofWord?_word (k : MessageKind) : MessageKind.ofWord? k.word = some k := by
  cases k <;> rfl

namespace Json.Reader

@[simp] theorem tenantId_ofJson (depth : Nat) (t : TenantId) :
    tenantId depth (Tree.ofJson (.text t.name)) = some t := by
  rw [Tree.ofJson]
  simp [tenantId, andThen, text, TenantId.parse_name, Except.toOption]

@[simp] theorem instant_ofJson (depth : Nat) (t : Instant) :
    Reader.instant depth (Tree.ofJson (Json.instant t)) = some t := by
  rw [Json.instant, Tree.ofJson]
  simp [Reader.instant, andThen, text, Instant.ofText?_written]

@[simp] theorem severity_ofJson (depth : Nat) (s : Severity) :
    severity depth (Tree.ofJson (.text s.word)) = some s :=
  (word_ofJson _ _ _).trans s.ofWord?_word

end Json.Reader

namespace Event

/-- The structured values of an event can be read back. -/
structure SoundBlobs (e : Event) : Prop where
  beforeState : ∀ v ∈ e.beforeState, SoundBlob v
  afterState : ∀ v ∈ e.afterState, SoundBlob v
  metadata : ∀ v ∈ e.metadata, SoundBlob v

/-- The levels of nesting of the deepest structured value of an event. -/
def nesting (e : Event) : Nat :=
  max (blobNesting e.beforeState) (max (blobNesting e.afterState) (blobNesting e.metadata))

def blobs (e : Event) : List Json := e.beforeState.toList ++ e.afterState.toList ++ e.metadata.toList

/-- The numbers in the structured values of an event are integers of 64 bits. -/
def hasWords (e : Event) : Bool := e.blobs.all (numbersAll Number.isWord)

theorem sound_of_read {e : Event} {depth : Nat} (h : ∀ v ∈ e.blobs, ReadBlob depth v)
    (hwords : e.hasWords = true) : e.SoundBlobs ∧ e.nesting ≤ depth := by
  have hvalue {v : Option Json} (hv : ∀ w ∈ v, w ∈ e.blobs) :
      (∀ w ∈ v, SoundBlob w) ∧ blobNesting v ≤ depth := by
    cases v with
    | none => exact ⟨by simp, Nat.zero_le _⟩
    | some w =>
      have hw := hv w rfl
      refine ⟨?_, (h w hw).nesting_le⟩
      rintro _ ⟨⟩
      exact ⟨(h w hw).not_null, (h w hw).ordered, List.all_eq_true.mp hwords w hw⟩
  have hbefore := hvalue (v := e.beforeState) fun w hw => by simp [blobs, Option.mem_def.mp hw]
  have hafter := hvalue (v := e.afterState) fun w hw => by simp [blobs, Option.mem_def.mp hw]
  have hmetadata := hvalue (v := e.metadata) fun w hw => by simp [blobs, Option.mem_def.mp hw]
  exact ⟨⟨hbefore.1, hafter.1, hmetadata.1⟩,
    Nat.max_le.mpr ⟨hbefore.2, Nat.max_le.mpr ⟨hafter.2, hmetadata.2⟩⟩⟩

/-- No structured value of some events nests more levels deep. -/
def NestWithin (depth : Nat) (events : List Event) : Prop := ∀ e ∈ events, e.nesting ≤ depth

instance (depth : Nat) (events : List Event) : Decidable (NestWithin depth events) :=
  inferInstanceAs (Decidable (∀ e ∈ events, e.nesting ≤ depth))

private theorem nestWithin_cons (depth : Nat) (e : Event) (rest : List Event) :
    NestWithin depth (e :: rest) ↔ e.nesting ≤ depth ∧ NestWithin depth rest := List.forall_mem_cons

def members (e : Event) : List (String × Json) :=
  [("id", text e.id), ("tenant_id", text e.tenant.name), ("user_id", text e.userId),
    ("session_id", text e.sessionId), ("ip_address", text e.ipAddress),
    ("user_agent", text e.userAgent), ("action", text e.action),
    ("resource_type", text e.resourceType), ("resource_id", text e.resourceId),
    ("severity", text e.severity.word), ("message", text e.message)] ++
  member? "before_state" e.beforeState ++ member? "after_state" e.afterState ++
  member? "metadata" e.metadata ++
  [("timestamp", instant e.timestamp), ("created_at", instant e.createdAt),
    ("updated_at", instant e.updatedAt)]

private theorem toJson_eq (e : Event) : e.toJson = object e.members := rfl

private theorem fieldNames_nodup : fieldNames.Nodup := by decide

private theorem names_members (e : Event) : (e.members.map Prod.fst).Sublist fieldNames := by
  unfold members fieldNames
  cases e.beforeState <;> cases e.afterState <;> cases e.metadata <;>
    simp only [member?, Option.elim_none, Option.elim_some, List.map_cons, List.map_nil, List.append_nil,
      List.cons_append, List.nil_append] <;>
    decide

private theorem read_toJson {e : Event} (h : e.SoundBlobs) (depth : Nat) :
    read (depth + 1) (Tree.ofJson e.toJson) = if e.nesting ≤ depth then some e else none := by
  have hbefore := blob_field h.beforeState depth
  have hafter := blob_field h.afterState depth
  have hmeta := blob_field h.metadata depth
  have hfields := fields_ofJson depth e.names_members fieldNames_nodup
  simp only [read, toJson_eq, hfields, some_bind, Fields.required_ofMembers, Fields.withDefault_ofMembers]
  have hnesting : e.nesting ≤ depth ↔ blobNesting e.beforeState ≤ depth ∧
      blobNesting e.afterState ≤ depth ∧ blobNesting e.metadata ≤ depth := by
    rw [nesting, Nat.max_le, Nat.max_le]
  simp only [hnesting]
  simp [members, List.lookup_append, List.lookup_cons, lookup_member?, hbefore, hafter, hmeta]
  by_cases hb : blobNesting e.beforeState ≤ depth <;> by_cases ha : blobNesting e.afterState ≤ depth <;>
    by_cases hm : blobNesting e.metadata ≤ depth <;> simp [hb, ha, hm]

private theorem member?_numbersAll {name : String} {v : Option Json} (h : ∀ w ∈ v, SoundBlob w) :
    memberNumbersAll Number.isWord (member? name v) = true := by
  cases v with
  | none => rfl
  | some w => simp [member?, memberNumbersAll, (h w rfl).words]

private theorem numbersAll_toJson {e : Event} (h : e.SoundBlobs) : e.toJson.numbersAll Number.isWord = true := by
  rw [toJson_eq, numbersAll, members]
  simp only [memberNumbersAll_append, member?_numbersAll h.beforeState, member?_numbersAll h.afterState,
    member?_numbersAll h.metadata]
  rfl

private theorem mapM_read_toJson {events : List Event} (h : ∀ e ∈ events, e.SoundBlobs) (depth : Nat) :
    (Tree.ofItems (events.map toJson)).mapM (read (depth + 1)) =
      if NestWithin depth events then some events else none := by
  induction events with
  | nil => rfl
  | cons e rest ih =>
    have he := read_toJson (h e (by simp)) depth
    have hrest := ih fun d hd => h d (by simp [hd])
    rw [List.map_cons, Tree.ofItems, List.mapM_cons, he, hrest]
    simp only [nestWithin_cons]
    by_cases hn : e.nesting ≤ depth <;> by_cases hr : NestWithin depth rest <;> simp [hn, hr]

end Event

namespace Message

/-- The structured values of the events of a message can be read back. -/
def SoundBlobs (m : Message) : Prop := ∀ e ∈ m.events, e.SoundBlobs

private def fieldNames : List String := ["type", "tenant_id", "logs", "log_id", "timestamp"]

/-- The member for the events of a message, if there are any. -/
private def logs (events : List Event) : Option Json :=
  if events.isEmpty then none else some (array (events.map Event.toJson))

private def members (m : Message) : List (String × Json) :=
  [("type", text m.kind.word), ("tenant_id", text m.tenant.name)] ++ member? "logs" (logs m.events) ++
    member? "log_id" (m.eventId.map text) ++ [("timestamp", instant m.sentAt)]

private theorem toJson_eq (m : Message) : m.toJson = object m.members := by
  unfold toJson members logs
  cases m.events.isEmpty <;> rfl

private theorem names_members (m : Message) : (m.members.map Prod.fst).Sublist fieldNames := by
  unfold members fieldNames
  cases logs m.events <;> cases m.eventId <;>
    simp only [member?, Option.elim_none, Option.elim_some, Option.map_none, Option.map_some, List.map_cons,
      List.map_nil, List.append_nil, List.cons_append, List.nil_append] <;>
    decide

private theorem logs_field {events : List Event} (h : ∀ e ∈ events, e.SoundBlobs) (depth : Nat) :
    ((logs events).elim (some []) fun v => Reader.list Event.read (depth + 2) (Tree.ofJson v)) =
      if Event.NestWithin depth events then some events else none := by
  cases events with
  | nil => rfl
  | cons e rest =>
    rw [← Event.mapM_read_toJson h depth, logs, List.isEmpty_cons, if_neg (by simp), Option.elim_some,
      Tree.ofJson]
    rfl

private theorem eventId_field (id : Option String) (depth : Nat) :
    ((id.map text).elim (some none) fun v => Reader.optional Reader.text depth (Tree.ofJson v)) =
      some id := by
  cases id <;> simp

private theorem read_toJson {m : Message} (h : m.SoundBlobs) (depth : Nat) :
    read (depth + 3) (Tree.ofJson m.toJson) = if Event.NestWithin depth m.events then some m else none := by
  have hlogs := logs_field h depth
  have hid := eventId_field m.eventId (depth + 2)
  have hfields := fields_ofJson (depth + 2) m.names_members (by decide)
  rw [fieldNames] at hfields
  simp only [read, toJson_eq, hfields, some_bind, Fields.required_ofMembers, Fields.withDefault_ofMembers]
  simp [members, List.lookup_append, List.lookup_cons, lookup_member?, hlogs, hid,
    MessageKind.ofWord?_word]
  by_cases hall : Event.NestWithin depth m.events <;> simp [hall]

private theorem numbersAll_toJson {m : Message} (h : m.SoundBlobs) :
    m.toJson.numbersAll Number.isWord = true := by
  have hlogs : memberNumbersAll Number.isWord (member? "logs" (logs m.events)) = true := by
    unfold logs
    split
    · rfl
    · have hevents := itemNumbersAll_map Number.isWord Event.toJson m.events fun e he =>
        Event.numbersAll_toJson (h e he)
      simp [member?, memberNumbersAll, numbersAll, hevents]
  have hid : memberNumbersAll Number.isWord (member? "log_id" (m.eventId.map text)) = true := by
    cases m.eventId <;> rfl
  rw [toJson_eq, numbersAll, members]
  simp only [memberNumbersAll_append, hlogs, hid]
  rfl

/-- The levels of nesting that a structured value of an event may have within a message: those of a text
less those of the message, of the list of its events and of the event. -/
def maxBlobDepth : Nat := maxDepth - 3

/-- The text of a message is read back, and checked, if no structured value in it nests too deeply. Else it
is no text of a message. -/
theorem decode_encode {m : Message} (h : m.SoundBlobs) :
    decode m.encode = if Event.NestWithin maxBlobDepth m.events then m.check else .error .malformed := by
  have htext : read.ofText m.encode = if Event.NestWithin maxBlobDepth m.events then some m else none := by
    rw [encode, Reader.ofText_compact (numbersAll_toJson h)]
    exact read_toJson h maxBlobDepth
  rw [decode, htext]
  split <;> rfl

private theorem tenant_of_read {m n : Message} {depth : Nat} {more : List (Option String × Tree)}
    (h : read (depth + 1) (.object (Tree.ofMembers (m.members.take 2) ++ more)) = some n) :
    n.tenant = m.tenant := by
  simp only [read, Option.bind_eq_bind, Option.bind_eq_some_iff] at h
  obtain ⟨f, hfields, _, -, tenant, htenant, _, -, _, -, _, -, hn⟩ := h
  rw [required_of_first hfields (by simp) (show _ = some (text m.tenant.name) from rfl),
    Reader.tenantId_ofJson] at htenant
  cases htenant
  cases hn
  rfl

/-- The text of a message is that of a message of the same tenant, or of none. -/
theorem tenant_of_decode_encode {m n : Message} (h : decode m.encode = .ok n) : n.tenant = m.tenant := by
  unfold decode at h
  cases hread : read.ofText m.encode with
  | none => simp [hread] at h
  | some k =>
    have hkn : k = n := by
      rw [hread, Option.elim_some, check] at h
      cases hproblem : k.problem? <;> simp_all
    rw [Reader.ofText, Option.bind_eq_some_iff] at hread
    obtain ⟨t, hparse, hread⟩ := hread
    obtain ⟨last, rest, hrest⟩ : ∃ last rest, m.members.drop 2 = last :: rest :=
      List.exists_cons_of_ne_nil (by simp [members])
    have hfirst : memberNumbersAll Number.isWord (m.members.take 2) = true := rfl
    rw [encode, toJson_eq, ← List.take_append_drop 2 m.members, hrest] at hparse
    obtain ⟨more, rfl⟩ := parse?_object hfirst hparse
    exact hkn ▸ tenant_of_read hread

end Message

end AuditTrail
