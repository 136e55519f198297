import AuditTrail.Event.Basic
/-!
# Statements of the relational database

A statement has numbered placeholders and a value for each of them. What the database cannot do it reports with a state
and in words. In a search pattern a percent sign stands for any text, an underscore for any character, and a character
behind a backslash for itself.
-/

namespace AuditTrail.Relational

/-! ## Search patterns -/

inductive LikeItem where
  | anyText
  | anyChar
  | char (c : Char)
  deriving DecidableEq, Repr

namespace Like

/-- Reads a pattern; a backslash at its end is an error. -/
def parse? : List Char → Option (List LikeItem)
  | [] => some []
  | ['\\'] => none
  | '\\' :: c :: rest => (parse? rest).map (.char c :: ·)
  | '%' :: rest => (parse? rest).map (.anyText :: ·)
  | '_' :: rest => (parse? rest).map (.anyChar :: ·)
  | c :: rest => (parse? rest).map (.char c :: ·)

def tails : List Char → List (List Char)
  | [] => [[]]
  | c :: rest => (c :: rest) :: tails rest

def accepts : List LikeItem → List Char → Bool
  | [], cs => cs.isEmpty
  | .anyText :: rest, cs => (tails cs).any (accepts rest)
  | .anyChar :: rest, cs =>
    match cs with
    | [] => false
    | _ :: cs => accepts rest cs
  | .char c :: rest, cs =>
    match cs with
    | [] => false
    | d :: cs => c == d && accepts rest cs

/-- Puts a backslash before every occurrence of a character. -/
def guardChar (c : Char) (cs : List Char) : List Char :=
  cs.flatMap fun d => if d = c then ['\\', c] else [d]

/-- The pattern for the texts that contain a text. The backslashes of the text itself come first. -/
def containing (s : String) : String :=
  String.ofList ('%' :: guardChar '_' (guardChar '%' (guardChar '\\' s.toList)) ++ ['%'])

end Like

/-! ## Statements -/

inductive Value where
  | null
  | text (s : String)
  | int (n : Int)
  | blob (v : Json)
  | time (t : Instant)

namespace Value

def optionalText (s : Option String) : Value := s.elim null text

def optionalBlob (v : Option Json) : Value := v.elim null blob

def optionalTime (t : Option Instant) : Value := t.elim null time

end Value

structure Statement where
  sql : String
  values : List Value

/-- What the database reports when a statement fails. -/
structure Report where
  state : String
  words : String
  deriving DecidableEq, Repr

def Report.isRepeatedKey (r : Report) : Bool := r.state == "23505"

structure EventRow where
  tenantId : String
  id : String
  userId : String
  sessionId : String
  ipAddress : String
  userAgent : String
  action : String
  resourceType : String
  resourceId : String
  severity : String
  message : String
  beforeState : Option Json
  afterState : Option Json
  metadata : Option Json
  eventTime : Instant
  createdAt : Instant
  updatedAt : Instant

structure TenantRow where
  id : String
  name : String
  apiKey : String
  createdAt : Instant
  updatedAt : Instant
  deriving DecidableEq

def EventRow.toEvent (r : EventRow) : Except Failure Event := do
  let tenant ← TenantId.parse r.tenantId
  let severity ← Severity.parse r.severity
  return {
    id := r.id, tenant, userId := r.userId, sessionId := r.sessionId, ipAddress := r.ipAddress
    userAgent := r.userAgent, action := r.action, resourceType := r.resourceType
    resourceId := r.resourceId, severity, message := r.message, beforeState := r.beforeState
    afterState := r.afterState, metadata := r.metadata, timestamp := r.eventTime
    createdAt := r.createdAt, updatedAt := r.updatedAt }

def TenantRow.toTenant (r : TenantRow) : Except Failure Tenant := do
  return ⟨← TenantId.parse r.id, r.name, r.apiKey, r.createdAt, r.updatedAt⟩

/-- A database. Statements between the start of a transaction and its end count together or not at all. -/
structure Database (m : Type → Type) where
  startTransaction : ExceptT Report m Unit
  commit : ExceptT Report m Unit
  /-- Runs a statement, and counts the rows that it was about. -/
  execute : Statement → ExceptT Report m Nat
  events : Statement → ExceptT Report m (List EventRow)
  tenants : Statement → ExceptT Report m (List TenantRow)

/-- Something that is done with a database. -/
abbrev Action (m : Type → Type) (α : Type) := ExceptT Failure m α

/-- Asks the database, and fails with its report. -/
def asking {m : Type → Type} [Monad m] {α : Type} (request : ExceptT Report m α)
    (failure : Report → Failure) : Action m α :=
  request.adapt failure

end AuditTrail.Relational
