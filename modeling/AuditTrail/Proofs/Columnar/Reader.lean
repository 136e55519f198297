import AuditTrail.Columnar.Query
import AuditTrail.Proofs.Statements.Words
/-!
# What a query says

A query is read word by word, and each placeholder takes the next value. What is read of the query for a filter
is the database, the pattern of the tables, a condition for the tenant and one for each criterion in the order
of the columns, and the page. So no value is put in the place of another one, and none is a part of the text.
-/

namespace AuditTrail.Columnar

open Statements

/-- What is compared: a value, what a row has in a column, or a function of such. -/
inductive Operand where
  | value (v : Bind)
  | column (name : String)
  | call (function : String) (first second : Operand)
  deriving DecidableEq, Repr

inductive Comparison where
  | equal
  | above
  | notBelow
  | notAbove
  deriving DecidableEq, Repr

structure Condition where
  left : Operand
  comparison : Comparison
  right : Operand
  deriving DecidableEq, Repr

/-- A page of the rows that meet some conditions, out of the tables of a database that match a pattern. -/
structure Selection where
  database : Bind
  pattern : Bind
  conditions : List Condition
  limit : Bind
  offset : Bind
  deriving DecidableEq, Repr

/-! ## Reading -/

/-- The rest of a statement after the words that come next. -/
def skip : List String → List String → Option (List String)
  | [], ws => some ws
  | _ :: _, [] => none
  | expected :: rest, w :: ws => if w = expected then skip rest ws else none

private theorem skip_append (expected ws : List String) : skip expected (expected ++ ws) = some ws := by
  induction expected with
  | nil => rfl
  | cons w rest ih => rw [List.cons_append, skip, if_pos rfl, ih]

/-- Reads a value or the name of a column. A placeholder takes the next value. -/
def readSimple : List String → List Bind → Option (Operand × List String × List Bind)
  | "?" :: ws, v :: vs => some (.value v, ws, vs)
  | "?" :: _, [] => none
  | "'" :: s :: "'" :: ws, vs => some (.value (.text s), ws, vs)
  | w :: ws, vs => some ((parseDigits w.toList).elim (.column w) fun n => .value (.int n), ws, vs)
  | [], _ => none

def readOperand (ws : List String) (vs : List Bind) : Option (Operand × List String × List Bind) := do
  match ← readSimple ws vs with
  | (.column function, "(" :: ws, vs) =>
    let (first, ws, vs) ← readSimple ws vs
    let (second, ws, vs) ← readSimple (← skip [","] ws) vs
    some (.call function first second, ← skip [")"] ws, vs)
  | simple => some simple

def readComparison : List String → Option (Comparison × List String)
  | ">" :: "=" :: ws => some (.notBelow, ws)
  | "<" :: "=" :: ws => some (.notAbove, ws)
  | "=" :: ws => some (.equal, ws)
  | ">" :: ws => some (.above, ws)
  | _ => none

def readCondition (ws : List String) (vs : List Bind) : Option (Condition × List String × List Bind) := do
  let (left, ws, vs) ← readOperand ws vs
  let (comparison, ws) ← readComparison ws
  let (right, ws, vs) ← readOperand ws vs
  some (⟨left, comparison, right⟩, ws, vs)

/-- Reads conditions up to the last one, at most so many. -/
def readConditions : Nat → List String → List Bind → Option (List Condition × List String × List Bind)
  | 0, _, _ => none
  | fuel + 1, ws, vs => do
    let (c, ws, vs) ← readCondition ws vs
    match skip ["AND"] ws with
    | some ws =>
      let (cs, ws, vs) ← readConditions fuel ws vs
      some (c :: cs, ws, vs)
    | none => some ([c], ws, vs)

def selectWords : List String := ["SELECT", "?fields", "FROM", "merge", "(", "?", ",", "?", ")", "WHERE"]

/-- The words that a query ends with: newest first, each identifier once, and the page. -/
def pageWords : List String :=
  ["ORDER", "BY", "timestamp", "DESC", ",", "id", "ASC", "LIMIT", "1", "BY", "id", "LIMIT", "?", "OFFSET", "?"]

def Statement.selection? (s : Statement) : Option Selection := do
  let database :: pattern :: vs := s.binds | none
  let ws ← skip selectWords (words s.template)
  let (conditions, ws, vs) ← readConditions ws.length ws vs
  let [limit, offset] := vs | none
  let [] ← skip pageWords ws | none
  some ⟨database, pattern, conditions, limit, offset⟩

/-! ## What is read of a criterion -/

def hasText (column value : String) : Condition := ⟨.column column, .equal, .value (.text value)⟩

/-- The instant of a number of microseconds. -/
def microsOperand (micros : Int) : Operand :=
  .call "fromUnixTimestamp64Micro" (.value (.int micros)) (.value (.text "UTC"))

def Criterion.reading : Criterion → Condition
  | equals column value => hasText column.name value
  | contains value =>
    ⟨.call "positionCaseInsensitiveUTF8" (.column "message") (.value (.text value)), .above, .value (.int 0)⟩
  | notBefore micros => ⟨.column "timestamp", .notBelow, microsOperand micros⟩
  | notAfter micros => ⟨.column "timestamp", .notAbove, microsOperand micros⟩

def Criterion.conditionWords : Criterion → List String
  | equals column _ => [column.name, "=", "?"]
  | contains _ => ["positionCaseInsensitiveUTF8", "(", "message", ",", "?", ")", ">", "0"]
  | notBefore _ => ["timestamp", ">", "=", "fromUnixTimestamp64Micro", "(", "?", ",", "'", "UTC", "'", ")"]
  | notAfter _ => ["timestamp", "<", "=", "fromUnixTimestamp64Micro", "(", "?", ",", "'", "UTC", "'", ")"]

private theorem words_condition (c : Criterion) : words c.condition = c.conditionWords := by
  have hcontains : words "positionCaseInsensitiveUTF8(message, ?) > 0" =
      ["positionCaseInsensitiveUTF8", "(", "message", ",", "?", ")", ">", "0"] := by decide +kernel
  have hnotBefore : words "timestamp >= fromUnixTimestamp64Micro(?, 'UTC')" =
      ["timestamp", ">", "=", "fromUnixTimestamp64Micro", "(", "?", ",", "'", "UTC", "'", ")"] := by
    decide +kernel
  have hnotAfter : words "timestamp <= fromUnixTimestamp64Micro(?, 'UTC')" =
      ["timestamp", "<", "=", "fromUnixTimestamp64Micro", "(", "?", ",", "'", "UTC", "'", ")"] := by
    decide +kernel
  cases c with
  | equals column value =>
    change words (column.name ++ " = ?") = [column.name, "=", "?"]
    cases column <;> decide +kernel
  | contains value => exact hcontains
  | notBefore micros => exact hnotBefore
  | notAfter micros => exact hnotAfter

private theorem readCondition_words (c : Criterion) (ws : List String) (vs : List Bind) :
    readCondition (c.conditionWords ++ ws) (c.bind :: vs) = some (c.reading, ws, vs) := by
  cases c with
  | equals column value => cases column <;> rfl
  | contains value => rfl
  | notBefore micros => rfl
  | notAfter micros => rfl

private theorem readConditions_words (c : Criterion) (cs : List Criterion) {fuel : Nat} (hfuel : cs.length < fuel)
    {ws : List String} (hws : skip ["AND"] ws = none) (vs : List Bind) :
    readConditions fuel (c.conditionWords ++ ((cs.flatMap fun d => "AND" :: d.conditionWords) ++ ws))
      ((c :: cs).map Criterion.bind ++ vs) = some ((c :: cs).map Criterion.reading, ws, vs) := by
  induction cs generalizing c fuel with
  | nil =>
    obtain ⟨fuel, rfl⟩ := Nat.exists_eq_add_one_of_ne_zero (Nat.ne_of_gt hfuel)
    rw [readConditions]
    simp [readCondition_words, hws]
  | cons d cs ih =>
    obtain ⟨fuel, rfl⟩ := Nat.exists_eq_add_one_of_ne_zero (Nat.ne_of_gt (Nat.zero_lt_of_lt hfuel))
    have hand (ws : List String) : skip ["AND"] ("AND" :: ws) = some ws := skip_append ["AND"] ws
    have hrest := ih d (Nat.lt_of_succ_lt_succ hfuel)
    rw [List.map_cons, List.cons_append] at hrest
    rw [readConditions, List.map_cons, List.cons_append, readCondition_words]
    simp only [List.flatMap_cons, List.cons_append, List.append_assoc, Option.bind_eq_bind, Option.bind_some,
      hand, List.map_cons, hrest]

/-- What stands before the conditions of a query. -/
def selectText : String := "SELECT ?fields FROM merge(?, ?) WHERE "

def pageText : String := " ORDER BY timestamp DESC, id ASC LIMIT 1 BY id LIMIT ? OFFSET ?"

private theorem words_statement (q : Query) {c : Criterion} {cs : List Criterion} (hcriteria : q.criteria = c :: cs) :
    words q.statement.template = selectWords ++
      (c.conditionWords ++ ((cs.flatMap fun d => "AND" :: d.conditionWords) ++ pageWords)) := by
  have hselect : words selectText = selectWords := by decide +kernel
  have hpage : words pageText = pageWords := by decide +kernel
  have hbefore (conditions : String) : Apart selectText conditions := .inl (by decide +kernel)
  have hafter (conditions : String) : Apart conditions pageText := .inr (by decide +kernel)
  have hand : words " AND " = ["AND"] := by decide +kernel
  have hconditions : words (" AND ".intercalate (q.criteria.map Criterion.condition)) =
      c.conditionWords ++ cs.flatMap fun d => "AND" :: d.conditionWords := by
    rw [hcriteria, List.map_cons, words_intercalate (by decide) (by decide) (by decide), words_condition,
      List.flatMap_map, hand]
    simp only [words_condition, List.singleton_append]
  change words (selectText ++ " AND ".intercalate (q.criteria.map Criterion.condition) ++ pageText) = _
  rw [words_append (hafter _), words_append (hbefore _), hselect, hpage, hconditions, List.append_assoc,
    List.append_assoc]

private theorem binds_statement (q : Query) :
    q.statement.binds = .text q.database :: .text q.pattern ::
      (q.criteria.map Criterion.bind ++ [.int q.limit, .int q.offset]) := rfl

theorem selection?_statement (q : Query) (hcriteria : q.criteria ≠ []) :
    q.statement.selection? =
      some ⟨.text q.database, .text q.pattern, q.criteria.map Criterion.reading, .int q.limit, .int q.offset⟩ := by
  obtain ⟨c, cs, hcriteria⟩ := List.exists_cons_of_ne_nil hcriteria
  have hlength := length_le_length_flatMap "AND" Criterion.conditionWords cs
  have hpage : skip ["AND"] pageWords = none := rfl
  -- every condition has a word, so reading does not end before the last one
  have hfuel : cs.length <
      (c.conditionWords ++ ((cs.flatMap fun d => "AND" :: d.conditionWords) ++ pageWords)).length := by
    simp only [List.length_append, pageWords, List.length_cons]
    omega
  have hend : skip pageWords pageWords = some [] := by simpa using skip_append pageWords []
  rw [Statement.selection?, binds_statement, words_statement q hcriteria, hcriteria]
  dsimp only
  rw [skip_append, Option.bind_eq_bind, Option.bind_some, readConditions_words c cs hfuel hpage,
    Option.bind_eq_bind, Option.bind_some]
  dsimp only
  rw [hend]
  rfl

/-! ## Placeholders -/

private theorem count_intercalate {c : Char} {separator : String} (hseparator : c ∉ separator.toList)
    {texts : List String}
    (htexts : ∀ t ∈ texts, t.toList.count c = 1) :
    (separator.intercalate texts).toList.count c = texts.length := by
  induction texts with
  | nil => rfl
  | cons t rest ih =>
    have hrest := ih fun u hu => htexts u (List.mem_cons_of_mem t hu)
    cases rest with
    | nil => simpa using htexts t (by simp)
    | cons u rest =>
      rw [String.intercalate_cons_cons, String.toList_append, String.toList_append, List.count_append,
        List.count_append, hrest, List.count_eq_zero_of_not_mem hseparator, htexts t (by simp), Nat.add_zero]
      exact Nat.add_comm 1 _

private theorem count_condition (c : Criterion) :
    c.conditionWords.count "?" = 1 ∧ c.condition.toList.count '?' = 1 := by
  refine ⟨?_, ?_⟩
  · cases c with
    | equals column value => cases column <;> rfl
    | contains value => rfl
    | notBefore micros => rfl
    | notAfter micros => rfl
  · cases c with
    | equals column value =>
      change (column.name ++ " = ?").toList.count '?' = 1
      cases column <;> decide +kernel
    | contains value =>
      have hcount : "positionCaseInsensitiveUTF8(message, ?) > 0".toList.count '?' = 1 := by decide +kernel
      exact hcount
    | notBefore micros =>
      have hcount : "timestamp >= fromUnixTimestamp64Micro(?, 'UTC')".toList.count '?' = 1 := by decide +kernel
      exact hcount
    | notAfter micros =>
      have hcount : "timestamp <= fromUnixTimestamp64Micro(?, 'UTC')".toList.count '?' = 1 := by decide +kernel
      exact hcount

private theorem count_statement (q : Query) (hcriteria : q.criteria ≠ []) :
    (words q.statement.template).count "?" = q.statement.binds.length ∧
      q.statement.template.toList.count '?' = q.statement.binds.length + 1 := by
  have hbinds : q.statement.binds.length = q.criteria.length + 4 := by
    rw [binds_statement, List.length_cons, List.length_cons, List.length_append, List.length_map]
    rfl
  rw [hbinds]
  constructor
  · obtain ⟨c, cs, hcons⟩ := List.exists_cons_of_ne_nil hcriteria
    have hselect : selectWords.count "?" = 2 := by decide +kernel
    have hpage : pageWords.count "?" = 2 := by decide +kernel
    have hrest : (cs.flatMap fun d => "AND" :: d.conditionWords).count "?" = cs.length := by
      clear hcons
      induction cs with
      | nil => rfl
      | cons d cs ih =>
        rw [List.flatMap_cons, List.count_append, List.count_cons_of_ne (by decide), (count_condition d).1, ih,
          List.length_cons, Nat.add_comm]
    rw [words_statement q hcons, List.count_append, List.count_append, List.count_append, hselect, hpage,
      (count_condition c).1, hrest, hcons, List.length_cons]
    omega
  · have hselect : selectText.toList.count '?' = 3 := by decide +kernel
    have hpage : pageText.toList.count '?' = 2 := by decide +kernel
    have hconditions : (" AND ".intercalate (q.criteria.map Criterion.condition)).toList.count '?' =
        q.criteria.length := by
      rw [count_intercalate (by decide), List.length_map]
      intro text htext
      obtain ⟨c, -, rfl⟩ := List.mem_map.mp htext
      exact (count_condition c).2
    change (selectText ++ " AND ".intercalate (q.criteria.map Criterion.condition) ++ pageText).toList.count '?' = _
    rw [String.toList_append, String.toList_append, List.count_append, List.count_append, hselect, hpage,
      hconditions]
    omega

/-! ## Queries for filters -/

/-- Two filters have the same criteria, with any values. -/
structure SameCriteria (f g : Filter) : Prop where
  userId : f.userId.isSome = g.userId.isSome
  action : f.action.isSome = g.action.isSome
  resourceType : f.resourceType.isSome = g.resourceType.isSome
  resourceId : f.resourceId.isSome = g.resourceId.isSome
  sessionId : f.sessionId.isSome = g.sessionId.isSome
  ipAddress : f.ipAddress.isSome = g.ipAddress.isSome
  userAgent : f.userAgent.isSome = g.userAgent.isSome
  severity : f.severity.isSome = g.severity.isSome
  message : f.message.isSome = g.message.isSome
  startTime : f.startTime.isSome = g.startTime.isSome
  endTime : f.endTime.isSome = g.endTime.isSome

/-- The conditions that a filter stands for, in the order of the columns. -/
def filterConditions (f : Filter) : List Condition :=
  (f.userId.map (hasText "user_id")).toList ++
    (f.action.map (hasText "action")).toList ++
    (f.resourceType.map (hasText "resource_type")).toList ++
    (f.resourceId.map (hasText "resource_id")).toList ++
    (f.sessionId.map (hasText "session_id")).toList ++
    (f.ipAddress.map (hasText "ip_address")).toList ++
    (f.userAgent.map (hasText "user_agent")).toList ++
    (f.severity.map fun s => hasText "severity" s.word).toList ++
    (f.message.map fun m => ⟨.call "positionCaseInsensitiveUTF8" (.column "message") (.value (.text m)), .above,
      .value (.int 0)⟩).toList ++
    (f.startTime.map fun t => ⟨.column "timestamp", .notBelow, microsOperand t.micros⟩).toList ++
    (f.endTime.map fun t => ⟨.column "timestamp", .notAbove, microsOperand t.micros⟩).toList

theorem map_reading_ofFilter (tenant : TenantId) (f : Filter) :
    (Criterion.ofFilter tenant f).map Criterion.reading =
      hasText "tenant_id" tenant.name :: filterConditions f := by
  have hoption {α : Type} (o : Option α) (k : α → Criterion) :
      (o.map k).toList.map Criterion.reading = (o.map fun a => (k a).reading).toList := by
    cases o <;> rfl
  simp only [Criterion.ofFilter, List.map_append, List.map_cons, List.cons_append, hoption, filterConditions]
  rfl

/-- The values of the criteria of a filter, in the order of the columns. -/
def filterValues (f : Filter) : List Bind :=
  ([f.userId, f.action, f.resourceType, f.resourceId, f.sessionId, f.ipAddress, f.userAgent,
      f.severity.map Severity.word, f.message].flatMap Option.toList).map .text ++
    ([f.startTime, f.endTime].flatMap Option.toList).map fun t => .int t.micros

private theorem map_bind_ofFilter (tenant : TenantId) (f : Filter) :
    (Criterion.ofFilter tenant f).map Criterion.bind = .text tenant.name :: filterValues f := by
  have hoption {α : Type} (o : Option α) (k : α → Criterion) :
      (o.map k).toList.map Criterion.bind = o.toList.map fun a => (k a).bind := by
    cases o <;> rfl
  have hword (o : Option Severity) : (o.map Severity.word).toList = o.toList.map Severity.word := by
    cases o <;> rfl
  simp only [Criterion.ofFilter, List.map_append, List.map_cons, List.cons_append, hoption, filterValues,
    List.flatMap_cons, List.flatMap_nil, List.append_nil, List.append_assoc, hword, List.map_map]
  rfl

private theorem map_condition_ofFilter {f g : Filter} (h : SameCriteria f g) (tenant other : TenantId) :
    (Criterion.ofFilter tenant f).map Criterion.condition = (Criterion.ofFilter other g).map Criterion.condition := by
  have hoption {α : Type} {o p : Option α} (hpresent : o.isSome = p.isSome) {k : α → Criterion}
      (hk : ∀ a b, (k a).condition = (k b).condition) :
      (o.map k).toList.map Criterion.condition = (p.map k).toList.map Criterion.condition := by
    cases o with
    | none =>
      cases p with
      | none => rfl
      | some b => cases hpresent
    | some a =>
      cases p with
      | none => cases hpresent
      | some b => exact congrArg (fun text => [text]) (hk a b)
  simp only [Criterion.ofFilter, List.map_append, List.map_cons, List.cons_append]
  rw [hoption h.userId fun _ _ => rfl, hoption h.action fun _ _ => rfl, hoption h.resourceType fun _ _ => rfl,
    hoption h.resourceId fun _ _ => rfl, hoption h.sessionId fun _ _ => rfl, hoption h.ipAddress fun _ _ => rfl,
    hoption h.userAgent fun _ _ => rfl, hoption h.severity fun _ _ => rfl, hoption h.message fun _ _ => rfl,
    hoption h.startTime fun _ _ => rfl, hoption h.endTime fun _ _ => rfl]
  rfl

/-- Whatever values the criteria of a filter have, and whichever tenant asks, the text of the query is the same.
It has one placeholder for each value, and each of them takes the value that belongs there: the database, the
pattern of the tables and the tenant, then the criteria in the order of their columns, and the page. -/
theorem values_meet_their_placeholders (database indexPrefix : String) (tenant : TenantId) (f : Filter) :
    let s := (Query.ofFilter database indexPrefix tenant f).statement
    let pattern := Partition.tablePattern indexPrefix tenant
    (∀ database' indexPrefix' tenant' g, SameCriteria f g →
      (Query.ofFilter database' indexPrefix' tenant' g).statement.template = s.template) ∧
    (words s.template).count "?" = s.binds.length ∧ s.template.toList.count '?' = s.binds.length + 1 ∧
    s.binds = [.text database, .text pattern, .text tenant.name] ++ filterValues f ++
      [.int f.window.limit, .int f.window.offset] ∧
    s.selection? = some {
      database := .text database
      pattern := .text pattern
      conditions := hasText "tenant_id" tenant.name :: filterConditions f
      limit := .int f.window.limit
      offset := .int f.window.offset } := by
  intro s pattern
  have hcriteria : (Query.ofFilter database indexPrefix tenant f).criteria ≠ [] := List.cons_ne_nil _ _
  obtain ⟨hwords, hmarks⟩ := count_statement _ hcriteria
  refine ⟨?_, hwords, hmarks, ?_, ?_⟩
  · intro database' indexPrefix' tenant' g h
    change selectText ++ " AND ".intercalate ((Criterion.ofFilter tenant' g).map Criterion.condition) ++ pageText =
      selectText ++ " AND ".intercalate ((Criterion.ofFilter tenant f).map Criterion.condition) ++ pageText
    rw [map_condition_ofFilter h tenant tenant']
  · have hvalues := map_bind_ofFilter tenant f
    change .text database :: .text pattern :: ((Criterion.ofFilter tenant f).map Criterion.bind ++ _) = _
    rw [hvalues]
    rfl
  · have hselection := selection?_statement _ hcriteria
    rw [← map_reading_ofFilter]
    exact hselection

/-- The queries for two texts with quotes and question marks in them, asked for by two tenants. -/
theorem quoted_values_meet :
    let f : Filter := { Filter.all 1 10 with action := some "login' OR ''='", startTime := some .epoch }
    let g : Filter := { Filter.all 2 20 with action := some "?, ?fields", startTime := some .epoch }
    let acme : TenantId := ⟨"acme", by decide, by decide⟩
    let other : TenantId := ⟨"globex", by decide, by decide⟩
    let s := (Query.ofFilter "audit" "audit_events" acme f).statement
    let t := (Query.ofFilter "audit" "audit_events" other g).statement
    SameCriteria f g ∧ s.template = t.template ∧ s.binds ≠ t.binds ∧
      t.binds = [.text "audit", .text "^audit_events_globex_[0-9]\x7b6\x7d$", .text "globex", .text "?, ?fields",
        .int 0, .int 20, .int 20] := by
  intro f g acme other s t
  have hsame : SameCriteria f g := ⟨rfl, rfl, rfl, rfl, rfl, rfl, rfl, rfl, rfl, rfl, rfl⟩
  have hs := (values_meet_their_placeholders "audit" "audit_events" acme f).1 "audit" "audit_events" other g hsame
  have ht := (values_meet_their_placeholders "audit" "audit_events" other g).2.2.2.1
  refine ⟨hsame, hs.symm, by decide +kernel, ?_⟩
  exact ht.trans (by decide +kernel)

end AuditTrail.Columnar
