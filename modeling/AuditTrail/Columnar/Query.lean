import AuditTrail.Index.Basic
import AuditTrail.Index.Row
/-!
# Queries of the column store

A statement is a template and the values of its placeholders. Values are quoted where they are put in, so that no value
is taken for a part of the statement. A filter becomes a list of criteria on the columns of a row. A criterion has a
condition with one placeholder, the value of that placeholder, and a meaning: whether a row meets it.
-/

namespace AuditTrail.Columnar

/-! ## Statements -/

inductive Bind where
  | text (s : String)
  | int (n : Int)
  deriving DecidableEq, Repr

def escapeChar (c : Char) : List Char := if c = '\\' ∨ c = '\'' then ['\\', c] else [c]

/-- A value as it stands in a statement: an integer, or a text in quotes. -/
def Bind.chars : Bind → List Char
  | text s => '\'' :: s.toList.flatMap escapeChar ++ ['\'']
  | int n => Json.intChars n

def quoteName (name : String) : String := "`" ++ name ++ "`"

/-- The names of the columns of a row, one after the other. -/
def columnList : String := ",".intercalate (IndexRow.columns.map quoteName)

structure Statement where
  /-- A question mark is a placeholder; with the word `fields` it stands for the columns of a row, and two
  of them for a question mark. -/
  template : String
  binds : List Bind
  deriving DecidableEq, Repr

/-- Puts values in place of placeholders. -/
def fill : List Char → List Bind → List Char
  | '?' :: 'f' :: 'i' :: 'e' :: 'l' :: 'd' :: 's' :: rest, bs => columnList.toList ++ fill rest bs
  | '?' :: '?' :: rest, bs => '?' :: fill rest bs
  | '?' :: rest, b :: bs => b.chars ++ fill rest bs
  | c :: rest, bs => c :: fill rest bs
  | [], _ => []

def Statement.text (s : Statement) : String := String.ofList (fill s.template.toList s.binds)

/-- The text of a statement that rows are read from. -/
def Statement.rowsText (s : Statement) : String := s.text ++ " FORMAT RowBinary"

/-! ## Criteria -/

/-- The columns that are compared with a text. -/
inductive TextColumn where
  | tenantId
  | userId
  | action
  | resourceType
  | resourceId
  | sessionId
  | ipAddress
  | userAgent
  | severity
  deriving DecidableEq, Repr

namespace TextColumn

def name : TextColumn → String
  | tenantId => "tenant_id"
  | userId => "user_id"
  | action => "action"
  | resourceType => "resource_type"
  | resourceId => "resource_id"
  | sessionId => "session_id"
  | ipAddress => "ip_address"
  | userAgent => "user_agent"
  | severity => "severity"

def value (r : IndexRow) : TextColumn → String
  | tenantId => r.tenantId
  | userId => r.userId
  | action => r.action
  | resourceType => r.resourceType
  | resourceId => r.resourceId
  | sessionId => r.sessionId
  | ipAddress => r.ipAddress
  | userAgent => r.userAgent
  | severity => r.severity

end TextColumn

inductive Criterion where
  | equals (column : TextColumn) (value : String)
  /-- The message contains a text, in letters of any case. -/
  | contains (value : String)
  /-- The event is not before an instant, in microseconds. -/
  | notBefore (micros : Int)
  /-- The event is not after an instant, in microseconds. -/
  | notAfter (micros : Int)
  deriving DecidableEq, Repr

namespace Criterion

/-- The condition, with a placeholder for its value. -/
def condition : Criterion → String
  | equals column _ => column.name ++ " = ?"
  | contains _ => "positionCaseInsensitiveUTF8(message, ?) > 0"
  | notBefore _ => "timestamp >= fromUnixTimestamp64Micro(?, 'UTC')"
  | notAfter _ => "timestamp <= fromUnixTimestamp64Micro(?, 'UTC')"

def bind : Criterion → Bind
  | equals _ value | contains value => .text value
  | notBefore micros | notAfter micros => .int micros

/-- Whether a row meets the condition. It is for the server to say whether a text occurs in a message in letters
of any case. -/
def holds (occurs : String → String → Bool) (r : IndexRow) : Criterion → Bool
  | equals column value => column.value r == value
  | contains value => occurs value r.message
  | notBefore micros => decide (micros ≤ r.timestamp)
  | notAfter micros => decide (r.timestamp ≤ micros)

/-- The criteria of a filter for the events of a tenant. -/
def ofFilter (tenant : TenantId) (f : Filter) : List Criterion :=
  .equals .tenantId tenant.name ::
    (f.userId.map (.equals .userId)).toList ++
    (f.action.map (.equals .action)).toList ++
    (f.resourceType.map (.equals .resourceType)).toList ++
    (f.resourceId.map (.equals .resourceId)).toList ++
    (f.sessionId.map (.equals .sessionId)).toList ++
    (f.ipAddress.map (.equals .ipAddress)).toList ++
    (f.userAgent.map (.equals .userAgent)).toList ++
    (f.severity.map fun s => .equals .severity s.word).toList ++
    (f.message.map .contains).toList ++
    (f.startTime.map fun t => .notBefore t.micros).toList ++
    (f.endTime.map fun t => .notAfter t.micros).toList

end Criterion

/-- A page of the rows of some tables, newest first, each identifier once. -/
structure Query where
  database : String
  /-- The pattern of the names of the tables. -/
  pattern : String
  criteria : List Criterion
  limit : Int
  offset : Int
  deriving DecidableEq, Repr

namespace Query

/-- The query for the page that a filter asks for. -/
def ofFilter (database indexPrefix : String) (tenant : TenantId) (f : Filter) : Query where
  database
  pattern := Partition.tablePattern indexPrefix tenant
  criteria := Criterion.ofFilter tenant f
  limit := f.window.limit
  offset := f.window.offset

def statement (q : Query) : Statement where
  template :=
    "SELECT ?fields FROM merge(?, ?) WHERE " ++
      " AND ".intercalate (q.criteria.map Criterion.condition) ++
      " ORDER BY timestamp DESC, id ASC LIMIT 1 BY id LIMIT ? OFFSET ?"
  binds :=
    [.text q.database, .text q.pattern] ++ q.criteria.map Criterion.bind ++
      [.int q.limit, .int q.offset]

def selects (occurs : String → String → Bool) (q : Query) (r : IndexRow) : Bool :=
  q.criteria.all fun c => c.holds occurs r

end Query

end AuditTrail.Columnar
