import AuditTrail.Proofs.Index.Rows
import AuditTrail.Proofs.Number.Integers
import AuditTrail.Proofs.Statements.Words
import AuditTrail.Relational.Store
/-!
# What an insertion says

A statement that inserts rows is read word by word: a table, the names of columns, and one bracket of numbered
placeholders for each row. The rows that are read of the statement for some events, with its values in place of the
numbers, are the rows of these events in their order.
-/

namespace AuditTrail.Relational

open Statements

private theorem mapM_eq_pure {m : Type → Type} [Monad m] [LawfulMonad m] {α β : Type} {f : α → m β}
    {g : α → β} {xs : List α}
    (h : ∀ x ∈ xs, f x = pure (g x)) : xs.mapM f = pure (xs.map g) := by
  induction xs with
  | nil => rfl
  | cons x rest ih =>
    rw [List.mapM_cons, h x (by simp), ih fun y hy => h y (by simp [hy])]
    simp

/-! ## Reading -/

/-- Reads what stands in a bracket, up to the end of the bracket. -/
def readBracket {α : Type} (item : String → Option α) : List String → Option (List α × List String)
  | w :: "," :: ws => do
    let a ← item w
    let (rest, ws) ← readBracket item ws
    some (a :: rest, ws)
  | w :: ")" :: ws => do some ([← item w], ws)
  | _ => none

def placeholderNumber (w : String) : Option Nat :=
  match w.toList with
  | '$' :: digits => parseDigits digits
  | _ => none

/-- Reads brackets of placeholders, at most so many, up to the end of the statement. -/
def readTuples : Nat → List String → Option (List (List Nat))
  | fuel + 1, "(" :: ws => do
    match ← readBracket placeholderNumber ws with
    | (tuple, []) => some [tuple]
    | (tuple, "," :: ws) => (readTuples fuel ws).map (tuple :: ·)
    | _ => none
  | _, _ => none

/-- Rows for some columns of a table, each made of numbered values. -/
structure Insertion where
  table : String
  columns : List String
  tuples : List (List Nat)
  deriving DecidableEq, Repr

def Statement.insertion? (s : Statement) : Option Insertion := do
  let "INSERT" :: "INTO" :: table :: "(" :: ws := words s.sql | none
  let (columns, "VALUES" :: ws) ← readBracket some ws | none
  some ⟨table, columns, ← readTuples ws.length ws⟩

/-- A row is made of the values of its columns. -/
abbrev Cells := List (String × Value)

/-- The value of a number; numbers count from 1. -/
def valueOf (values : List Value) : Nat → Option Value
  | 0 => none
  | n + 1 => values[n]?

def Insertion.rows (i : Insertion) (values : List Value) : Option (List Cells) :=
  i.tuples.mapM fun tuple => (tuple.mapM (valueOf values)).map i.columns.zip

/-! ## Rows of events -/

namespace Value

def asText : Value → Option String
  | text s => some s
  | _ => none

def asTime : Value → Option Instant
  | time t => some t
  | _ => none

def asBlob : Value → Option (Option Json)
  | null => some none
  | blob v => some (some v)
  | _ => none

end Value

/-- The row of the table of events that cells are, by the names of their columns. -/
def Cells.eventRow? (cells : Cells) : Option EventRow := do
  let text column := (cells.lookup column).bind Value.asText
  let time column := (cells.lookup column).bind Value.asTime
  let blob column := (cells.lookup column).bind Value.asBlob
  some {
    tenantId := ← text "tenant_id"
    id := ← text "id"
    userId := ← text "user_id"
    sessionId := ← text "session_id"
    ipAddress := ← text "ip_address"
    userAgent := ← text "user_agent"
    action := ← text "action"
    resourceType := ← text "resource_type"
    resourceId := ← text "resource_id"
    severity := ← text "severity"
    message := ← text "message"
    beforeState := ← blob "before_state"
    afterState := ← blob "after_state"
    metadata := ← blob "metadata"
    eventTime := ← time "event_time"
    createdAt := ← time "created_at"
    updatedAt := ← time "updated_at" }

def EventRow.ofEvent (e : Event) : EventRow where
  tenantId := e.tenant.name
  id := e.id
  userId := e.userId
  sessionId := e.sessionId
  ipAddress := e.ipAddress
  userAgent := e.userAgent
  action := e.action
  resourceType := e.resourceType
  resourceId := e.resourceId
  severity := e.severity.word
  message := e.message
  beforeState := e.beforeState
  afterState := e.afterState
  metadata := e.metadata
  eventTime := e.timestamp
  createdAt := e.createdAt
  updatedAt := e.updatedAt

theorem EventRow.toEvent_ofEvent (e : Event) : (EventRow.ofEvent e).toEvent = .ok e := by
  simp only [toEvent, ofEvent, TenantId.parse_name, Severity.parse_word]
  rfl

private theorem eventRow?_eventValues (e : Event) :
    Cells.eventRow? (eventColumns.zip (eventValues e.tenant e)) = some (EventRow.ofEvent e) := by
  obtain ⟨id, tenant, userId, sessionId, ipAddress, userAgent, action, resourceType, resourceId, severity, message,
    before, after, metadata, timestamp, createdAt, updatedAt⟩ := e
  cases before <;> cases after <;> cases metadata <;> rfl

/-! ## The words of an insertion -/

def commaWords : List String → List String
  | [] => []
  | w :: ws => w :: ws.flatMap fun v => [",", v]

private theorem readBracket_commaWords {α : Type} {item : String → Option α} {words : List String} {items : List α}
    (hitems : words.mapM item = some items) (hne : words ≠ []) (ws : List String) :
    readBracket item (commaWords words ++ ")" :: ws) = some (items, ws) := by
  obtain ⟨w, words, rfl⟩ := List.exists_cons_of_ne_nil hne
  clear hne
  induction words generalizing w items with
  | nil =>
    rw [List.mapM_cons, List.mapM_nil] at hitems
    simp only [commaWords, List.flatMap_nil, List.cons_append, List.nil_append, readBracket]
    cases hw : item w with
    | none => simp [hw] at hitems
    | some a => simp_all
  | cons v words ih =>
    rw [List.mapM_cons] at hitems
    obtain ⟨a, ha, hitems⟩ := Option.bind_eq_some_iff.mp hitems
    obtain ⟨rest, hrest, hitems⟩ := Option.bind_eq_some_iff.mp hitems
    obtain rfl : a :: rest = items := Option.some.inj hitems
    have hread := ih v hrest
    simp only [commaWords, List.flatMap_cons, List.cons_append, List.nil_append] at hread ⊢
    rw [readBracket, ha, Option.bind_eq_bind, Option.bind_some, hread]
    rfl

private theorem words_commas {texts : List String} (hwords : ∀ t ∈ texts, words t = [t]) :
    words (", ".intercalate texts) = commaWords texts := by
  have hcomma : words ", " = [","] := by decide +kernel
  cases texts with
  | nil => rfl
  | cons t rest =>
    rw [words_intercalate (by decide) (by decide) (by decide), hwords t (by simp), hcomma]
    refine congrArg (t :: ·) (List.flatMap_congr fun u hu => ?_)
    rw [hwords u (by simp [hu])]
    rfl

private theorem toList_placeholder (n : Nat) : (placeholder n).toList = '$' :: Nat.toDigits 10 n := by
  rw [placeholder, String.toList_append]
  exact congrArg _ Nat.toList_repr

private theorem placeholderNumber_placeholder (n : Nat) : placeholderNumber (placeholder n) = some n := by
  rw [placeholderNumber, toList_placeholder]
  exact parseDigits_toDigits n

private theorem isInner_of_isDigit {c : Char} (h : c.isDigit = true) : isInner c = true := by
  have hne (d : Char) (hd : d.isDigit = false) : c ≠ d := by
    rintro rfl
    exact Bool.false_ne_true (hd.symm.trans h)
  simp [isInner, isMark, hne ' ' rfl, hne '(' rfl, hne ')' rfl, hne ',' rfl, hne '\'' rfl, hne '<' rfl,
    hne '=' rfl, hne '>' rfl]

private theorem words_placeholder (n : Nat) : words (placeholder n) = [placeholder n] := by
  apply words_of_inner
  · simp [toList_placeholder]
  · intro c hc
    rw [toList_placeholder] at hc
    rcases List.mem_cons.mp hc with rfl | hc
    · decide
    · exact isInner_of_isDigit (Nat.isDigit_of_mem_toDigits (by decide) (by decide) hc)

/-- The numbers of the values of one event, counted on from a number. -/
def eventNumbers (start : Nat) : List Nat := List.range' (start + 1) eventColumns.length

private theorem words_placeholders (start : Nat) :
    words (placeholders start) = "(" :: (commaWords ((eventNumbers start).map placeholder) ++ [")"]) := by
  have hnumbers : (List.range eventColumns.length).map (fun i => placeholder (start + i + 1)) =
      (eventNumbers start).map placeholder := by
    rw [eventNumbers, List.range'_eq_map_range, List.map_map]
    refine List.map_congr_left fun i _ => congrArg placeholder ?_
    simp only [Nat.add_right_comm]
  have hwords : ∀ t ∈ (eventNumbers start).map placeholder, words t = [t] := by
    intro t ht
    obtain ⟨n, -, rfl⟩ := List.mem_map.mp ht
    exact words_placeholder n
  have hopen (text : String) : Apart "(" text := .inl (by decide)
  have hclose (text : String) : Apart text ")" := .inr (by decide)
  rw [placeholders, hnumbers, words_append (hclose _), words_append (hopen _), words_commas hwords]
  rfl

/-! ## The reading of an insertion -/

private theorem readBracket_placeholders (start : Nat) (ws : List String) :
    readBracket placeholderNumber (commaWords ((eventNumbers start).map placeholder) ++ ")" :: ws) =
      some (eventNumbers start, ws) := by
  have hnumbers (numbers : List Nat) : (numbers.map placeholder).mapM placeholderNumber = some numbers := by
    rw [List.mapM_map]
    exact (mapM_eq_pure fun n _ => placeholderNumber_placeholder n).trans (congrArg some (List.map_id numbers))
  exact readBracket_commaWords (hnumbers _) (by simp [eventNumbers, eventColumns]) ws

private theorem readTuples_words (start : Nat) (starts : List Nat) {fuel : Nat} (hfuel : starts.length < fuel) :
    readTuples fuel (words (placeholders start) ++ starts.flatMap fun n => "," :: words (placeholders n)) =
      some ((start :: starts).map eventNumbers) := by
  induction starts generalizing start fuel with
  | nil =>
    obtain ⟨fuel, rfl⟩ := Nat.exists_eq_add_one_of_ne_zero (Nat.ne_of_gt hfuel)
    rw [words_placeholders, List.flatMap_nil, List.append_nil, readTuples, readBracket_placeholders]
    rfl
  | cons next starts ih =>
    obtain ⟨fuel, rfl⟩ := Nat.exists_eq_add_one_of_ne_zero (Nat.ne_of_gt (Nat.zero_lt_of_lt hfuel))
    have hrest := ih next (Nat.lt_of_succ_lt_succ hfuel)
    rw [words_placeholders, List.flatMap_cons, List.cons_append, List.append_assoc, List.singleton_append, readTuples,
      readBracket_placeholders]
    simp only [Option.bind_eq_bind, Option.bind_some, List.cons_append, hrest]
    rfl

private theorem words_insertStatement (tenant : TenantId) {events : List Event} {n : Nat}
    (hlength : events.length = n + 1) :
    words (insertStatement tenant events).sql =
      "INSERT" :: "INTO" :: "audit_events" :: "(" :: (commaWords eventColumns ++ ")" :: "VALUES" ::
        (words (placeholders 0) ++
          ((List.range' 1 n).map (· * eventColumns.length)).flatMap fun start =>
            "," :: words (placeholders start))) := by
  have hinsert : words "INSERT INTO audit_events (" = ["INSERT", "INTO", "audit_events", "("] := by decide +kernel
  have hvalues : words ") VALUES " = [")", "VALUES"] := by decide +kernel
  have hcomma : words ", " = [","] := by decide +kernel
  have hcolumns : words eventColumnList = commaWords eventColumns := by
    have hcolumn : ∀ column ∈ eventColumns, words column = [column] := by decide +kernel
    exact words_commas hcolumn
  have hopened (text : String) : Apart "INSERT INTO audit_events (" text := .inl (by decide +kernel)
  have hclosed (rows : String) : Apart eventColumnList (") VALUES " ++ rows) :=
    .append_right (by decide) (by decide) _ rows
  have hbefore (rows : String) : Apart ") VALUES " rows := .inl (by decide +kernel)
  have htuples : (List.range (n + 1)).map (fun i => placeholders (i * eventColumns.length)) =
      placeholders 0 :: (List.range' 1 n).map fun i => placeholders (i * eventColumns.length) := by
    rw [List.range_eq_range', List.range'_succ, List.map_cons, Nat.zero_mul]
  have hsplit (rows : String) : words ("INSERT INTO audit_events (" ++ eventColumnList ++ ") VALUES " ++ rows) =
      words "INSERT INTO audit_events (" ++ (words eventColumnList ++ (words ") VALUES " ++ words rows)) := by
    simp only [String.append_assoc, words_append (hopened _), words_append (hclosed _), words_append (hbefore _)]
  have hrows (row : String) (rows : List String) : words (", ".intercalate (row :: rows)) =
      words row ++ rows.flatMap fun other => words ", " ++ words other :=
    words_intercalate (by decide) (by decide) (by decide) row rows
  refine (hsplit _).trans ?_
  rw [hlength, htuples, hrows]
  simp only [hinsert, hcolumns, hvalues, hcomma, List.flatMap_map, List.cons_append,
    List.nil_append]

private theorem insertion?_insertStatement (tenant : TenantId) {events : List Event} (hne : events ≠ []) :
    (insertStatement tenant events).insertion? =
      some ⟨"audit_events", eventColumns,
        (List.range events.length).map fun i => eventNumbers (i * eventColumns.length)⟩ := by
  obtain ⟨n, hlength⟩ := Nat.exists_eq_add_one_of_ne_zero (mt List.length_eq_zero_iff.mp hne)
  have hcolumns (ws : List String) : readBracket some (commaWords eventColumns ++ ")" :: ws) =
      some (eventColumns, ws) := readBracket_commaWords rfl (List.cons_ne_nil _ _) ws
  have htuples : (0 :: (List.range' 1 n).map (· * eventColumns.length)).map eventNumbers =
      (List.range events.length).map fun i => eventNumbers (i * eventColumns.length) := by
    rw [hlength, List.range_eq_range', List.range'_succ, List.map_cons, List.map_cons, List.map_map, Nat.zero_mul]
    rfl
  rw [Statement.insertion?, words_insertStatement tenant hlength]
  simp only [hcolumns, Option.bind_eq_bind, Option.bind_some]
  rw [readTuples_words, htuples]
  · rfl
  · have hstarts := length_le_length_flatMap "," (fun start => words (placeholders start))
      ((List.range' 1 n).map (· * eventColumns.length))
    rw [List.length_append, words_placeholders, List.length_cons]
    omega

/-! ## The rows of an insertion -/

private theorem mapM_valueOf {values : List Value} {start count : Nat} (h : start + count ≤ values.length) :
    (List.range' (start + 1) count).mapM (valueOf values) = some ((values.drop start).take count) := by
  induction count generalizing start with
  | zero => simp
  | succ count ih =>
    have hstart : start < values.length := by omega
    rw [List.range'_succ, List.mapM_cons, valueOf, List.getElem?_eq_getElem hstart, ih (by omega),
      List.drop_eq_getElem_cons hstart, List.take_succ_cons]
    rfl

private theorem mapM_eventNumbers (tenant : TenantId) (before : List Value) {first : Nat}
    (hbefore : before.length = first * eventColumns.length) (events : List Event) :
    ((List.range' first events.length).map fun i => eventNumbers (i * eventColumns.length)).mapM
        (fun tuple => (tuple.mapM (valueOf (before ++ events.flatMap (eventValues tenant)))).map eventColumns.zip) =
      some (events.map fun e => eventColumns.zip (eventValues tenant e)) := by
  -- the values of the events that were done stand before those of the rest, whose numbers count on from them
  induction events generalizing before first with
  | nil => rfl
  | cons e rest ih =>
    have hvalues : (eventValues tenant e).length = eventColumns.length := rfl
    have hfirst : (eventNumbers (first * eventColumns.length)).mapM
        (valueOf (before ++ (eventValues tenant e ++ rest.flatMap (eventValues tenant)))) =
          some (eventValues tenant e) := by
      rw [eventNumbers, mapM_valueOf (by simp only [List.length_append]; omega), ← hbefore, List.drop_left,
        ← hvalues, List.take_left]
    have hnext : (before ++ eventValues tenant e).length = (first + 1) * eventColumns.length := by
      rw [List.length_append, hbefore, hvalues, Nat.succ_mul]
    have hrest := ih _ hnext
    rw [List.append_assoc] at hrest
    rw [List.length_cons, List.range'_succ, List.map_cons, List.mapM_cons, List.flatMap_cons, hfirst, hrest]
    rfl

private theorem flatten_eventNumbers (first count : Nat) :
    ((List.range' first count).map fun i => eventNumbers (i * eventColumns.length)).flatten =
      List.range' (first * eventColumns.length + 1) (count * eventColumns.length) := by
  induction count generalizing first with
  | zero => simp
  | succ count ih =>
    have hnext : (first + 1) * eventColumns.length + 1 = first * eventColumns.length + 1 + eventColumns.length := by
      rw [Nat.succ_mul, Nat.add_right_comm]
    rw [List.range'_succ, List.map_cons, List.flatten_cons, ih, eventNumbers, hnext, List.range'_append_1,
      Nat.succ_mul, Nat.add_comm eventColumns.length]

/-- A statement inserts some events: it has a bracket of seventeen placeholders for each of them, numbered from 1
without a gap, and as many values, and the rows that are made of these values are those of the events. -/
structure Statement.Inserts (s : Statement) (events : List Event) : Prop where
  reading : ∃ i cells rows, s.insertion? = some i ∧ i.table = "audit_events" ∧ i.tuples.length = events.length ∧
    (∀ tuple ∈ i.tuples, tuple.length = 17) ∧ i.tuples.flatten = List.range' 1 s.values.length ∧
    i.rows s.values = some cells ∧ cells.mapM Cells.eventRow? = some rows ∧ rows.mapM EventRow.toEvent = .ok events
  count : s.values.length = events.length * 17

theorem insertStatement_inserts {tenant : TenantId} {events : List Event} (hne : events ≠ [])
    (hown : ∀ e ∈ events, e.tenant = tenant) : (insertStatement tenant events).Inserts events := by
  have hcount : (insertStatement tenant events).values.length = events.length * 17 := by
    have hvalues (e : Event) : (eventValues tenant e).length = 17 := rfl
    change (events.flatMap (eventValues tenant)).length = _
    simp only [List.length_flatMap, hvalues, List.map_const', List.sum_replicate_nat]
  have hrows : (events.map fun e => eventColumns.zip (eventValues tenant e)).mapM Cells.eventRow? =
      some (events.map EventRow.ofEvent) := by
    rw [List.mapM_map]
    refine mapM_eq_pure fun e he => ?_
    rw [Function.comp_apply, ← hown e he]
    exact eventRow?_eventValues e
  have hevents : (events.map EventRow.ofEvent).mapM EventRow.toEvent = .ok events := by
    rw [List.mapM_map]
    exact (mapM_eq_pure fun e _ => EventRow.toEvent_ofEvent e).trans (congrArg Except.ok (List.map_id events))
  refine ⟨⟨_, _, _, insertion?_insertStatement tenant hne, rfl, ?_, ?_, ?_, ?_, hrows, hevents⟩, hcount⟩
  · simp
  · intro tuple htuple
    obtain ⟨i, -, rfl⟩ := List.mem_map.mp htuple
    rw [eventNumbers, List.length_range']
    rfl
  · rw [List.range_eq_range', flatten_eventNumbers, hcount, Nat.zero_mul]
    rfl
  · have hcells := mapM_eventNumbers tenant [] (Nat.zero_mul _).symm events
    rw [List.nil_append, ← List.range_eq_range'] at hcells
    exact hcells

end AuditTrail.Relational
