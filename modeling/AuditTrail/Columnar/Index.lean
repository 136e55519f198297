import AuditTrail.Columnar.Command
/-!
# The search index in a column store

Every partition is a table. The index remembers the tables that it has made and does not make them again;
when rows cannot be put into a table it forgets it, since another process may have dropped it.
-/

namespace AuditTrail.Columnar

/-- A column store. What it cannot do it reports in words. -/
structure Server (m : Type → Type) where
  run : Command → ExceptT String m Unit
  /-- The tables whose names match a pattern, in order. -/
  tables : String → ExceptT String m (List String)
  rows : Query → ExceptT String m (List IndexRow)

/-- A column store that cannot be reached. -/
def Server.closed {m : Type → Type} [Monad m] (report : String) : Server m where
  run _ := throw report
  tables _ := throw report
  rows _ := throw report

/-- The tables that are known to be there. -/
abbrev Known := List String

/-- Something that is done to the index. -/
abbrev Action (m : Type → Type) (α : Type) := ExceptT Failure (StateT Known m) α

section

variable {m : Type → Type} [Monad m] {α : Type}

/-- Asks the server, and fails with its report. -/
def asking (request : ExceptT String m α) (failure : String → Failure) : Action m α := do
  match ← (request.run : m (Except String α)) with
  | .ok a => return a
  | .error report => throw (failure report)

def forget (table : String) : Action m Unit := modify fun known => known.filter (· ≠ table)

variable (server : Server m) (s : SearchSettings)

def ping : Action m Unit :=
  asking (server.run .ping) fun report => .search ("ClickHouse unreachable: " ++ report)

def tenantTables (tenant : TenantId) : Action m (List String) :=
  asking (server.tables (Partition.tablePattern s.indexPrefix tenant)) fun report =>
    .search ("Failed to list partitions: " ++ report)

/-- The table of the partition that an instant falls into. -/
def tableOf (tenant : TenantId) (t : Instant) : String :=
  (Partition.ofInstant tenant t).name s.indexPrefix

/-- Makes the table of a partition, unless it is known. -/
def createPartition (tenant : TenantId) (asOf : Instant) : Action m Unit := do
  let table := tableOf s tenant asOf
  if (← get).contains table then return
  asking (server.run (.createTable table)) fun report =>
    .projection ("Failed to create partition " ++ table ++ ": " ++ report)
  modify fun known => known ++ [table]

/-- Adds a row to those of its table; tables are in the order of their names. -/
def groupRow (table : String) (row : IndexRow) :
    List (String × List IndexRow) → List (String × List IndexRow)
  | [] => [(table, [row])]
  | (t, rows) :: rest =>
    if t = table then (t, rows ++ [row]) :: rest
    else if table < t then (table, [row]) :: (t, rows) :: rest
    else (t, rows) :: groupRow table row rest

/-- The rows of events by table. An event of another tenant is refused. -/
def groupEvents (tenant : TenantId) (indexedAt : Instant) (events : List Event) :
    Except Failure (List (String × List IndexRow)) :=
  events.foldlM (fun groups e =>
    if e.tenant ≠ tenant then
      .error (.projection ("event " ++ e.id ++ " does not belong to tenant " ++ tenant.name))
    else .ok (groupRow (tableOf s tenant e.timestamp) (IndexRow.ofEvent e indexedAt) groups)) []

/-- Puts rows into a table, which is forgotten when that fails. -/
def insertRows (table : String) (rows : List IndexRow) : Action m Unit := do
  match ← ((server.run (.insert table rows)).run : m (Except String Unit)) with
  | .ok _ => return
  | .error report =>
    forget table
    throw (.projection ("Failed to insert into " ++ table ++ ": " ++ report))

/-- Puts events into the index, table by table. -/
def indexEvents (indexedAt : Instant) (ctx : Context) (events : List Event) : Action m Unit := do
  let tenant ← ctx.requireTenant
  let groups ← groupEvents s tenant indexedAt events
  groups.forM fun (table, rows) => insertRows server table rows

/-- Takes a document out of all tables of the tenant. -/
def deleteDocument (ctx : Context) (id : String) : Action m Unit := do
  let tenant ← ctx.requireTenant
  let tables ← (tenantTables server s tenant).adapt fun failure => .projection failure.message
  tables.forM fun table =>
    asking (server.run (.deleteRow table id)) fun report =>
      .projection ("Failed to delete from " ++ table ++ ": " ++ report)

/-- The page of the tenant's events that a filter asks for. A tenant without tables has no events. -/
def search (ctx : Context) (f : Filter) : Action m (List Event) := do
  let tenant ← ctx.requireTenant
  if (← tenantTables server s tenant).isEmpty then return []
  let q := Query.ofFilter s.database s.indexPrefix tenant f
  let rows ← asking (server.rows q) fun report => .search ("Search query failed: " ++ report)
  rows.mapM fun r => (r.toEvent : Except Failure Event)

def dropIndex (tenant : TenantId) : Action m Unit := do
  (← tenantTables server s tenant).forM fun table => do
    asking (server.run (.dropTable table)) fun report =>
      .search ("Failed to drop " ++ table ++ ": " ++ report)
    forget table

/-- Makes the database; the report if that fails. -/
def createDatabase : m (Except String Unit) := do
  match ← (server.run .createDatabase).run with
  | .ok _ => return .ok ()
  | .error report => return .error ("Failed to execute DDL: " ++ report)

def isReachable : m Bool := do
  return (← (server.run .ping).run).toBool

def target (indexedAt : Instant) : IndexTarget (StateT Known m) where
  create := createPartition server s
  index ctx e := indexEvents server s indexedAt ctx [e]
  bulkIndex := indexEvents server s indexedAt
  delete := deleteDocument server s

end

end AuditTrail.Columnar
