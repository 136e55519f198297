import AuditTrail.Columnar.Query
import AuditTrail.Settings.Basic
/-!
# Tables of the column store

A table holds the rows of one partition; rows with one identifier are merged into the one indexed last, and expire
after some days. The tables of a tenant are found by a pattern for their whole names: plain characters and ranges of
characters, each of which may have to be repeated.
-/

namespace AuditTrail.Columnar

/-! ## Patterns of names -/

/-- The characters from one to another, and how many of them there are in a row. -/
structure PatternItem where
  first : Char
  last : Char
  times : Nat
  deriving DecidableEq, Repr

namespace Pattern

/-- A character that stands for itself in a pattern. -/
def isPlain (c : Char) : Bool := isAlphanumeric c || c == '-' || c == '_'

/-- Reads how often an item is repeated: a number in braces, else once. -/
def readTimes : List Char → Option (Nat × List Char)
  | '\x7b' :: rest =>
    match spanNumber rest with
    | (n, _ + 1, '\x7d' :: rest) => some (n, rest)
    | _ => none
  | rest => some (1, rest)

def readItem : List Char → Option (PatternItem × List Char)
  | '[' :: first :: '-' :: last :: ']' :: rest => do
    let (times, rest) ← readTimes rest
    some (⟨first, last, times⟩, rest)
  | c :: rest => do
    guard (isPlain c)
    let (times, rest) ← readTimes rest
    some (⟨c, c, times⟩, rest)
  | [] => none

/-- Reads the items of a pattern up to its end, at most so many. -/
def readItems : Nat → List Char → Option (List PatternItem)
  | _, ['$'] => some []
  | 0, _ => none
  | fuel + 1, cs => do
    let (item, rest) ← readItem cs
    some (item :: (← readItems fuel rest))

/-- The items of a pattern for whole names. -/
def parse? (pattern : String) : Option (List PatternItem) :=
  match pattern.toList with
  | '^' :: rest => readItems rest.length rest
  | _ => none

/-- Whether a name is made of the items. -/
def accepts : List PatternItem → List Char → Bool
  | [], cs => cs.isEmpty
  | item :: rest, cs =>
    let run := cs.take item.times
    run.length == item.times && run.all (fun c => item.first ≤ c && c ≤ item.last) &&
      accepts rest (cs.drop item.times)

def test (pattern name : String) : Bool := (parse? pattern).any fun items => accepts items name.toList

end Pattern

/-! ## Commands -/

/-- The columns of a table and their types. -/
def columnTypes : List (String × String) :=
  [("id", "String"), ("tenant_id", "LowCardinality(String)"), ("user_id", "String"),
    ("session_id", "String"), ("ip_address", "String"), ("user_agent", "String"),
    ("action", "LowCardinality(String)"), ("resource_type", "LowCardinality(String)"),
    ("resource_id", "String"), ("severity", "LowCardinality(String)"), ("message", "String"),
    ("before_state", "Nullable(String)"), ("after_state", "Nullable(String)"),
    ("metadata", "Nullable(String)"), ("timestamp", "DateTime64(6, 'UTC')"),
    ("created_at", "DateTime64(6, 'UTC')"), ("updated_at", "DateTime64(6, 'UTC')"),
    ("indexed_at", "DateTime64(6, 'UTC')")]

/-- The statement that makes a table, unless it is there. -/
def createTable (database table : String) (lifecycleDays : Nat) : String :=
  "\nCREATE TABLE IF NOT EXISTS " ++ quoteName database ++ "." ++ quoteName table ++ " (\n" ++
    ",\n".intercalate (columnTypes.map fun (name, type) => "    " ++ name ++ " " ++ type) ++
    "\n)\nENGINE = ReplacingMergeTree(indexed_at)\nORDER BY id\n" ++
    "TTL toDateTime(timestamp) + INTERVAL " ++ toString lifecycleDays ++ " DAY\n" ++
    "SETTINGS index_granularity = 8192\n"

inductive Command where
  | ping
  | createDatabase
  | createTable (table : String)
  | dropTable (table : String)
  | deleteRow (table id : String)
  | insert (table : String) (rows : List IndexRow)
  deriving DecidableEq, Repr

namespace Command

def statement (s : SearchSettings) : Command → Statement
  | ping => ⟨"SELECT 1", []⟩
  | createDatabase => ⟨"CREATE DATABASE IF NOT EXISTS " ++ quoteName s.database, []⟩
  | createTable table => ⟨Columnar.createTable s.database table s.lifecycleDays, []⟩
  | dropTable table =>
    ⟨"DROP TABLE IF EXISTS " ++ quoteName s.database ++ "." ++ quoteName table, []⟩
  | deleteRow table id =>
    ⟨"DELETE FROM " ++ quoteName s.database ++ "." ++ quoteName table ++ " WHERE id = ?", [.text id]⟩
  | insert table _ =>
    ⟨"INSERT INTO " ++ quoteName table ++ "(" ++ columnList ++ ") FORMAT RowBinary", []⟩

end Command

/-- The statement for the names of the tables of a database that match a pattern. -/
def listTables (database pattern : String) : Statement :=
  ⟨"SELECT name FROM system.tables WHERE database = ? AND match(name, ?) ORDER BY name",
    [.text database, .text pattern]⟩

end AuditTrail.Columnar
