import AuditTrail.Proofs.Columnar.Reader
import AuditTrail.Proofs.Filter.Days
import AuditTrail.Proofs.Index.Names
/-!
# What a query selects

The conditions that are read of a query are evaluated on the row of an event, column by column, where times are
microseconds since 1970. So a filter selects the events that it admits, as far as its bounds of time and the
times of the events are told apart by these microseconds: a first bound between two of them is taken back to the
earlier one, and those of a leap second run on into the next second.
-/

namespace AuditTrail

/-! ## The order of microseconds -/

namespace Instant

/-- An instant is in a leap second that has run on to the microsecond of an instant of the next second. -/
def Reaches (a b : Instant) : Prop := b.seconds = a.seconds + 1 ∧ b.nanos / 1000 + 1000000 ≤ a.nanos / 1000

/-- An instant is in a leap second that has run on past the microsecond of an instant of the next second. -/
def Passes (a b : Instant) : Prop := b.seconds = a.seconds + 1 ∧ b.nanos / 1000 + 1000000 < a.nanos / 1000

private theorem micros_le_micros_iff (a b : Instant) :
    a.micros ≤ b.micros ↔ (a.truncate ≤ b.truncate ∧ ¬a.Passes b) ∨ b.Reaches a := by
  have ha := a.nanos_lt
  have hb := b.nanos_lt
  rw [le_iff, Passes, Reaches, truncate_seconds, truncate_seconds, truncate_nanos, truncate_nanos, micros, micros]
  omega

private theorem le_truncate_iff (a b : Instant) (ha : a.nanos % 1000 = 0) : a.truncate ≤ b.truncate ↔ a ≤ b := by
  rw [le_iff, le_iff, truncate_seconds, truncate_seconds, truncate_nanos, truncate_nanos]
  omega

private theorem truncate_le_iff (a b : Instant) (hb : b.nanos % 1000 = 0) :
    a.truncate ≤ b.truncate ↔ a ≤ b ∨ b = a.truncate := by
  have heq : b = a.truncate ↔ b.seconds = a.seconds ∧ b.nanos = a.nanos - a.nanos % 1000 := by
    constructor
    · rintro rfl
      exact ⟨rfl, rfl⟩
    · rintro ⟨hseconds, hnanos⟩
      cases b
      cases a
      simp_all [truncate]
  rw [heq, le_iff, le_iff, truncate_seconds, truncate_seconds, truncate_nanos, truncate_nanos]
  omega

private theorem micros_le_micros_iff_le {a b : Instant} (ha : a.nanos % 1000 = 0) (hplain : a.nanos < 1000000000)
    (hplain' : b.nanos < 1000000000) : a.micros ≤ b.micros ↔ a ≤ b := by
  rw [le_iff, micros, micros]
  omega

end Instant

namespace Columnar

/-! ## The meaning of a selection -/

/-- What is compared: a text, a whole number or a time, in microseconds since 1970. -/
inductive Datum where
  | text (s : String)
  | int (n : Int)
  | time (micros : Int)
  deriving DecidableEq, Repr

def Datum.ofBind : Bind → Datum
  | .text s => .text s
  | .int n => .int n

/-- What a column holds. The numbers in a row are times. -/
def Datum.ofCell : Json → Option Datum
  | .text s => some (.text s)
  | .number (.int n) => some (.time n)
  | _ => none

def cell (r : IndexRow) (column : String) : Option Datum :=
  ((IndexRow.columns.zip r.values).lookup column).bind Datum.ofCell

def call : String → Datum → Datum → Option Datum
  | "fromUnixTimestamp64Micro", .int n, .text _ => some (.time n)
  | _, _, _ => none

def Operand.eval (r : IndexRow) : Operand → Option Datum
  | value v => some (.ofBind v)
  | column name => cell r name
  | .call function first second => do Columnar.call function (← first.eval r) (← second.eval r)

/-- Whether two values compare as they should. Only values of one sort are compared. -/
def Comparison.holds : Comparison → Datum → Datum → Option Bool
  | equal, .text s, .text t => some (s == t)
  | above, .int m, .int n => some (decide (n < m))
  | notBelow, .time m, .time n => some (decide (n ≤ m))
  | notAbove, .time m, .time n => some (decide (m ≤ n))
  | _, _, _ => none

def Condition.holds (r : IndexRow) (c : Condition) : Option Bool := do
  c.comparison.holds (← c.left.eval r) (← c.right.eval r)

/-- Whether a row meets conditions, if all of them have a meaning. -/
def allHold (r : IndexRow) : List Condition → Option Bool
  | [] => some true
  | c :: cs => do
    let b ← c.holds r
    let rest ← allHold r cs
    some (b && rest)

/-- Whether a statement selects a row, if it is a query. -/
def Statement.selects (s : Statement) (r : IndexRow) : Option Bool :=
  s.selection?.bind fun selection => allHold r selection.conditions

variable {r : IndexRow}

private theorem allHold_append {cs ds : List Condition} {a b : Bool} (hcs : allHold r cs = some a)
    (hds : allHold r ds = some b) : allHold r (cs ++ ds) = some (a && b) := by
  induction cs generalizing a with
  | nil =>
    obtain rfl : true = a := Option.some.inj hcs
    exact hds
  | cons c cs ih =>
    obtain ⟨head, hhead, hcs⟩ := Option.bind_eq_some_iff.mp hcs
    obtain ⟨tail, htail, hcs⟩ := Option.bind_eq_some_iff.mp hcs
    obtain rfl : (head && tail) = a := Option.some.inj hcs
    rw [List.cons_append, allHold, hhead, ih htail, Bool.and_assoc]
    rfl

private theorem allHold_map {α : Type} (condition : α → Condition) {test : α → Bool}
    (h : ∀ a, (condition a).holds r = some (test a)) (wanted : Option α) :
    allHold r (wanted.map condition).toList = some (Filter.meets wanted test) := by
  cases wanted with
  | none => rfl
  | some a =>
    change ((condition a).holds r).bind _ = _
    rw [h a]
    exact congrArg some (Bool.and_true _)

/-! ## The rows of events -/

variable {e : Event} {indexedAt : Instant}

private theorem hasText_holds {column own : String} (h : cell r column = some (.text own)) (value : String) :
    (hasText column value).holds r = some (value == own) := by
  have heval : (Operand.column column).eval r = some (.text own) := h
  rw [BEq.comm, Condition.holds, hasText, heval]
  rfl

private theorem severity_holds (e : Event) (indexedAt : Instant) (s : Severity) :
    (hasText "severity" s.word).holds (.ofEvent e indexedAt) = some (s == e.severity) := by
  have hwords : (s.word == e.severity.word) = (s == e.severity) := by
    cases s <;> cases e.severity <;> decide
  rw [← hwords]
  exact hasText_holds rfl s.word

private theorem allHold_filterConditions {f : Filter} (hmessage : f.message = none) (e : Event) (indexedAt : Instant) :
    allHold (.ofEvent e indexedAt) (filterConditions f) =
      some ({ f with startTime := none, endTime := none }.admits e &&
        Filter.meets f.startTime (fun t => decide (t.micros ≤ e.timestamp.micros)) &&
        Filter.meets f.endTime (fun t => decide (e.timestamp.micros ≤ t.micros))) := by
  have htext (column : String) {own : String} (h : cell (.ofEvent e indexedAt) column = some (.text own))
      (wanted : Option String) : allHold (.ofEvent e indexedAt) (wanted.map (hasText column)).toList =
        some (Filter.meets wanted (· == own)) :=
    allHold_map _ (hasText_holds h) wanted
  have hseverity := allHold_map _ (severity_holds e indexedAt) f.severity
  have hstart : allHold (.ofEvent e indexedAt) (f.startTime.map fun t =>
      ⟨.column "timestamp", .notBelow, microsOperand t.micros⟩).toList =
        some (Filter.meets f.startTime fun t => decide (t.micros ≤ e.timestamp.micros)) :=
    allHold_map _ (fun _ => rfl) f.startTime
  have hend : allHold (.ofEvent e indexedAt) (f.endTime.map fun t =>
      ⟨.column "timestamp", .notAbove, microsOperand t.micros⟩).toList =
        some (Filter.meets f.endTime fun t => decide (e.timestamp.micros ≤ t.micros)) :=
    allHold_map _ (fun _ => rfl) f.endTime
  have hnone : allHold (.ofEvent e indexedAt) (f.message.map fun m =>
      ⟨.call "positionCaseInsensitiveUTF8" (.column "message") (.value (.text m)), .above,
        .value (.int 0)⟩).toList = some true := by
    rw [hmessage]
    rfl
  have hall := allHold_append (allHold_append (allHold_append (allHold_append (allHold_append (allHold_append
    (allHold_append (allHold_append (allHold_append (allHold_append
      (htext "user_id" rfl f.userId) (htext "action" rfl f.action))
      (htext "resource_type" rfl f.resourceType)) (htext "resource_id" rfl f.resourceId))
      (htext "session_id" rfl f.sessionId)) (htext "ip_address" rfl f.ipAddress))
      (htext "user_agent" rfl f.userAgent)) hseverity) hnone) hstart) hend
  refine hall.trans (congrArg some ?_)
  simp only [Filter.admits, hmessage, Filter.meets, Option.elim_none, Bool.and_true]
  rfl

private theorem selects_ofFilter (database indexPrefix : String) (tenant : TenantId) {f : Filter}
    (hmessage : f.message = none) (e : Event) (indexedAt : Instant) :
    (Query.ofFilter database indexPrefix tenant f).statement.selects (.ofEvent e indexedAt) =
      some (tenant.name == e.tenant.name && ({ f with startTime := none, endTime := none }.admits e &&
        Filter.meets f.startTime (fun t => decide (t.micros ≤ e.timestamp.micros)) &&
        Filter.meets f.endTime (fun t => decide (e.timestamp.micros ≤ t.micros)))) := by
  have hcriteria : (Query.ofFilter database indexPrefix tenant f).criteria ≠ [] := List.cons_ne_nil _ _
  have hreading : (Query.ofFilter database indexPrefix tenant f).criteria.map Criterion.reading =
      [hasText "tenant_id" tenant.name] ++ filterConditions f := map_reading_ofFilter tenant f
  have htenant : allHold (.ofEvent e indexedAt) [hasText "tenant_id" tenant.name] =
      some (tenant.name == e.tenant.name) :=
    allHold_map (hasText "tenant_id") (hasText_holds rfl) (some tenant.name)
  rw [Statement.selects, selection?_statement _ hcriteria, Option.bind_some, hreading]
  exact allHold_append htenant (allHold_filterConditions hmessage e indexedAt)

private theorem meets_iff {α : Type} {wanted : Option α} {test : α → Bool} :
    Filter.meets wanted test = true ↔ ∀ a ∈ wanted, test a = true := by
  cases wanted <;> simp [Filter.meets]

private theorem admits_iff (f : Filter) (e : Event) :
    f.admits e = true ↔ { f with startTime := none, endTime := none }.admits e = true ∧
      (∀ t ∈ f.startTime, t ≤ e.timestamp) ∧ ∀ t ∈ f.endTime, e.timestamp ≤ t := by
  have hbounds : f.admits e = ({ f with startTime := none, endTime := none }.admits e &&
      Filter.meets f.startTime (fun t => decide (t ≤ e.timestamp)) &&
      Filter.meets f.endTime (fun t => decide (e.timestamp ≤ t))) := by
    simp only [Filter.admits, Filter.meets, Option.elim_none, Bool.and_true]
  rw [hbounds, Bool.and_eq_true, Bool.and_eq_true, meets_iff, meets_iff, and_assoc]
  simp only [decide_eq_true_eq]

/-- A filter without a text to look for selects the events of the tenant that it admits, only that a first bound
is cut to the microsecond and that the microseconds of a leap second count as those of the next second. Where
neither matters, it selects what it admits. -/
theorem selects_iff_admits (database indexPrefix : String) (tenant : TenantId) {f : Filter}
    (hmessage : f.message = none) {e : Event} (htime : e.timestamp.nanos % 1000 = 0) (indexedAt : Instant) :
    ∃ selected,
      (Query.ofFilter database indexPrefix tenant f).statement.selects (.ofEvent e indexedAt) = some selected ∧
      (selected = true ↔ e.tenant = tenant ∧ { f with startTime := none, endTime := none }.admits e = true ∧
        (∀ t ∈ f.startTime, (t ≤ e.timestamp ∨ e.timestamp = t.truncate) ∧ ¬t.Passes e.timestamp ∨
          e.timestamp.Reaches t) ∧
        (∀ t ∈ f.endTime, e.timestamp ≤ t ∧ ¬e.timestamp.Passes t ∨ t.Reaches e.timestamp)) ∧
      ((∀ t ∈ f.startTime, t.nanos % 1000 = 0) →
        (∀ t ∈ e.timestamp :: (f.startTime.toList ++ f.endTime.toList), t.nanos < 1000000000) →
        (selected = true ↔ e.tenant = tenant ∧ f.admits e = true)) := by
  have hstart (t : Instant) : t.micros ≤ e.timestamp.micros ↔
      (t ≤ e.timestamp ∨ e.timestamp = t.truncate) ∧ ¬t.Passes e.timestamp ∨ e.timestamp.Reaches t := by
    rw [Instant.micros_le_micros_iff, Instant.truncate_le_iff _ _ htime]
  have hend (t : Instant) : e.timestamp.micros ≤ t.micros ↔
      e.timestamp ≤ t ∧ ¬e.timestamp.Passes t ∨ t.Reaches e.timestamp := by
    rw [Instant.micros_le_micros_iff, Instant.le_truncate_iff _ _ htime]
  have htenant : (tenant.name == e.tenant.name) = true ↔ e.tenant = tenant := by
    rw [beq_iff_eq, TenantId.name_injective.eq_iff, eq_comm]
  refine ⟨_, selects_ofFilter database indexPrefix tenant hmessage e indexedAt, ?_, ?_⟩
  · simp only [Bool.and_eq_true, htenant, meets_iff, decide_eq_true_eq, hstart, hend, and_assoc]
  · intro hprecise hplain
    have htimePlain := hplain e.timestamp (by simp)
    have hstart' (t) (ht : t ∈ f.startTime) : t.micros ≤ e.timestamp.micros ↔ t ≤ e.timestamp :=
      Instant.micros_le_micros_iff_le (hprecise t ht) (hplain t (by simp [Option.mem_def.mp ht])) htimePlain
    have hend' (t) (ht : t ∈ f.endTime) : e.timestamp.micros ≤ t.micros ↔ e.timestamp ≤ t :=
      Instant.micros_le_micros_iff_le htime htimePlain (hplain t (by simp [Option.mem_def.mp ht]))
    rw [admits_iff]
    simp only [Bool.and_eq_true, htenant, meets_iff, decide_eq_true_eq, and_assoc, forall₂_congr hstart',
      forall₂_congr hend']

/-- A sign-in at the start of 1970 is found by a filter for what happened from half a microsecond later on. -/
theorem signIn_selected_before_bound :
    let e := Event.signIn "e1"
    let late : Instant := { Instant.epoch with nanos := 500, nanos_lt := by decide, leap := by decide }
    let f : Filter := { Filter.all 1 10 with startTime := some late }
    f.message = none ∧ e.timestamp.nanos % 1000 = 0 ∧ f.admits e = false ∧
      (Query.ofFilter "audit" "audit_events" .acme f).statement.selects (.ofEvent e .epoch) = some true := by
  intro e late f
  obtain ⟨selected, hselects, hiff, -⟩ := selects_iff_admits "audit" "audit_events" .acme (f := f) rfl
    (e := e) (by decide) .epoch
  have hselected : selected = true := by
    refine hiff.mpr ⟨rfl, by decide, ?_, ?_⟩
    · rintro t ⟨⟩
      exact .inl ⟨.inr (by decide +kernel), fun h => absurd h.1 (by decide)⟩
    · rintro t ⟨⟩
  exact ⟨rfl, by decide, by decide, hselected ▸ hselects⟩

end Columnar

end AuditTrail
