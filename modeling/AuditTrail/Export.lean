import AuditTrail.Event.Basic
/-!
# Exports

Events are exported as an array of objects or as comma-separated values. There a record is its fields with commas
between them and a line feed at the end. A field with a comma, a quote or the end of a line in it is written in quotes,
and each of its quotes twice.
-/

namespace AuditTrail

/-! ## Comma-separated values -/

namespace Csv

/-- A character that a field without quotes cannot have. -/
def isSpecial (c : Char) : Bool := c == ',' || c == '"' || c == '\n' || c == '\r'

def doubleQuotes (cs : List Char) : List Char :=
  cs.flatMap fun c => if c = '"' then ['"', '"'] else [c]

def fieldChars (value : String) : List Char :=
  let cs := value.toList
  if cs.any isSpecial then '"' :: doubleQuotes cs ++ ['"'] else cs

/-- A record with the line feed that ends it. -/
def recordChars : List String → List Char
  | [] => ['\n']
  | [field] => fieldChars field ++ ['\n']
  | field :: next :: rest => fieldChars field ++ ',' :: recordChars (next :: rest)

def chars (records : List (List String)) : List Char := records.flatMap recordChars

/-- The names of the columns of exported events. -/
def header : List String :=
  ["ID", "TenantID", "UserID", "SessionID", "Action", "Resource", "ResourceID", "IPAddress",
    "UserAgent", "Severity", "Timestamp"]

def ofEvent (e : Event) : List String :=
  [e.id, e.tenant.name, e.userId, e.sessionId, e.action, e.resourceType, e.resourceId, e.ipAddress,
    e.userAgent, e.severity.word, e.timestamp.writtenToSecond]

/-! ## Reading comma-separated values -/

inductive Place where
  | start
  | bare
  | quoted
  /-- After a quote in a field in quotes: the last one of the field, or the first of two. -/
  | quote
  deriving DecidableEq, Repr

/-- Reads the records of a text from a place on, given what has been read of the field and the record. -/
def readFrom : Place → List Char → List String → List Char → Option (List (List String))
  | .start, _, [], [] => some []
  | _, _, _, [] => none
  | .quoted, field, record, c :: rest =>
    if c = '"' then readFrom .quote field record rest
    else readFrom .quoted (field ++ [c]) record rest
  | .start, field, record, '"' :: rest => readFrom .quoted field record rest
  | .quote, field, record, '"' :: rest => readFrom .quoted (field ++ ['"']) record rest
  | place, field, record, c :: rest =>
    if c = ',' then readFrom .start [] (record ++ [String.ofList field]) rest
    else if c = '\n' then
      (readFrom .start [] [] rest).map fun records => (record ++ [String.ofList field]) :: records
    else if isSpecial c ∨ place = .quote then none
    else readFrom .bare (field ++ [c]) record rest

def read (cs : List Char) : Option (List (List String)) := readFrom .start [] [] cs

end Csv

/-! ## Formats -/

inductive ExportFormat where
  | json
  | csv
  deriving DecidableEq, Repr

namespace ExportFormat

/-- Reads a format in letters of any case. -/
def parse (s : String) : Except Failure ExportFormat :=
  let s := String.ofList (s.toList.map Char.toLower)
  if s = "json" then .ok json
  else if s = "csv" then .ok csv
  else .error (.invalid .exportFormat)

def contentType : ExportFormat → String
  | json => "application/json"
  | csv => "text/csv"

def fileName : ExportFormat → String
  | json => "audit_logs.json"
  | csv => "audit_logs.csv"

/-- Events in a format: an array of objects, or a header and a record for each event. -/
def render (format : ExportFormat) (events : List Event) : String :=
  match format with
  | json => (Json.array (events.map Event.toJson)).compact
  | csv => String.ofList (Csv.chars (Csv.header :: events.map Csv.ofEvent))

end ExportFormat

end AuditTrail
