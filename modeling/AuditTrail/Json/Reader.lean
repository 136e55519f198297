import AuditTrail.Json.Tree
/-!
# Reading values and structures from JSON

A reader looks at the structure of a text and says what it stands for. It bounds the nesting of what it
looks at and refuses numbers and texts without a value there; the unknown members of a structure are
not looked at.
-/

namespace AuditTrail

namespace Json

/-- Reads a value from the structure of a text that may have so many levels of nesting. -/
def Reader (α : Type) := Nat → Tree → Option α

/-- The levels of nesting of a text. -/
def maxDepth : Nat := 127

namespace Reader

variable {α β : Type}

def ofText (read : Reader α) (s : String) : Option α :=
  (Tree.parse? s).bind (read maxDepth)

def ofBytes (read : Reader α) (bs : List UInt8) : Option α :=
  (Tree.ofBytes? bs).bind (read maxDepth)

theorem ofBytes_bytes (read : Reader α) (s : String) : read.ofBytes (Text.bytes s) = read.ofText s := by
  rw [ofBytes, Tree.ofBytes?, Text.ofBytes?_bytes, ofText]

def ofJson (read : Reader α) (v : Json) : Option α :=
  read maxDepth (Tree.ofJson v)

/-- Reads and then converts, which may fail. -/
def andThen (read : Reader α) (convert : α → Option β) : Reader β :=
  fun depth t => (read depth t).bind convert

def text : Reader String
  | _, .text s => s
  | _, _ => none

def bool : Reader Bool
  | _, .bool b => some b
  | _, _ => none

def int (lo hi : Int) : Reader Int
  | _, .number (some (.int n)) => if lo ≤ n ∧ n ≤ hi then some n else none
  | _, _ => none

/-- A natural number of at most so many bits. -/
def nat (bits : Nat) : Reader Nat :=
  (int 0 (wordBound bits - 1 : Nat)).andThen fun n => some n.toNat

def int64 : Reader Int := int (minInt 64) (maxInt 64)

/-- A value, or `null` for none. -/
def optional (read : Reader α) : Reader (Option α)
  | _, .null => some none
  | depth, t => (read depth t).map some

def list (read : Reader α) : Reader (List α)
  | depth + 1, .array items => items.mapM (read depth)
  | _, _ => none

/-- One of some words: a text, or an object that has the word as the name of its only member, which is
`null`. -/
def word (meaning : String → Option α) : Reader α
  | _, .text s => s.bind meaning
  | _ + 1, .object [(name, .null)] => name.bind meaning
  | _, _ => none

mutual

/-- Any value: members are sorted, and of two with one name the later one counts. -/
def json : Nat → Tree → Option Json
  | _, .null => some .null
  | _, .bool b => some (.bool b)
  | _, .number n => n.map .number
  | _, .text s => s.map .text
  | depth, .array items =>
    match depth with
    | 0 => none
    | depth + 1 => (jsonItems depth items).map .array
  | depth, .object members =>
    match depth with
    | 0 => none
    | depth + 1 => (jsonMembers depth members).map fun ms => .object (sortMembers ms)

def jsonItems : Nat → List Tree → Option (List Json)
  | _, [] => some []
  | depth, t :: rest => do
    let v ← json depth t
    let vs ← jsonItems depth rest
    some (v :: vs)

def jsonMembers : Nat → List (Option String × Tree) → Option (List (String × Json))
  | _, [] => some []
  | depth, (name, t) :: rest => do
    let name ← name
    let v ← json depth t
    let vs ← jsonMembers depth rest
    some ((name, v) :: vs)

end

end Reader

/-! ## Structures -/

/-- The fields of a structure as a text gives them. -/
structure Fields where
  /-- The levels of nesting that the fields may have. -/
  depth : Nat
  /-- Whether the fields have names. Without, they are given by position. -/
  named : Bool
  given : List (String × Tree)

/-- Whether a list of names has a name twice. -/
def hasRepeated : List String → Bool
  | [] => false
  | n :: rest => rest.contains n || hasRepeated rest

/-- The fields of these names: members of an object in any order, each at most once, or the first of
the fields as the items of an array. -/
def fields (names : List String) : Reader Fields
  | depth + 1, .object members =>
    match members.mapM fun (name, t) => name.map (·, t) with
    | some members =>
      let known := members.filter fun m => names.contains m.1
      if hasRepeated (known.map (·.1)) then none else some ⟨depth, true, known⟩
    | none => none
  | depth + 1, .array items =>
    if items.length ≤ names.length then some ⟨depth, false, names.zip items⟩ else none
  | _, _ => none

namespace Fields

variable {α : Type}

def required (f : Fields) (name : String) (read : Reader α) : Option α :=
  (f.given.lookup name).bind (read f.depth)

/-- A field that has a value when it is not given. -/
def withDefault (f : Fields) (name : String) (read : Reader α) (default : α) : Option α :=
  match f.given.lookup name with
  | some t => read f.depth t
  | none => some default

/-- A field that may be `null`, and may be missing among fields with names. -/
def optional (f : Fields) (name : String) (read : Reader α) : Option (Option α) :=
  match f.given.lookup name with
  | some t => Reader.optional read f.depth t
  | none => if f.named then some none else none

end Fields

end Json

end AuditTrail
