import AuditTrail.Json.Basic
import AuditTrail.Text.Basic
/-!
# Requests and answers

A byte of a target may be written as a percent sign with two hexadecimal digits. The query of a target is a list of
names and values that are written so, with plus signs for spaces.
-/

namespace AuditTrail.Http

/-! ## Percent encoding -/

def hexValue? (b : UInt8) : Option UInt8 :=
  if '0'.toUInt8 ≤ b ∧ b ≤ '9'.toUInt8 then some (b - '0'.toUInt8)
  else if 'a'.toUInt8 ≤ b ∧ b ≤ 'f'.toUInt8 then some (b - 'a'.toUInt8 + 10)
  else if 'A'.toUInt8 ≤ b ∧ b ≤ 'F'.toUInt8 then some (b - 'A'.toUInt8 + 10)
  else none

def hexByte? (hi lo : UInt8) : Option UInt8 := do
  return (← hexValue? hi) * 16 + (← hexValue? lo)

/-- Reads the bytes that are written with percent signs; other percent signs stand for themselves. -/
def percentDecode : List UInt8 → List UInt8
  | b :: hi :: lo :: rest =>
    if b = '%'.toUInt8 then
      match hexByte? hi lo with
      | some c => c :: percentDecode rest
      | none => b :: percentDecode (hi :: lo :: rest)
    else b :: percentDecode (hi :: lo :: rest)
  | bs => bs

def hexDigit (n : UInt8) : UInt8 := if n < 10 then '0'.toUInt8 + n else 'A'.toUInt8 + (n - 10)

/-- The bytes that stand for themselves everywhere in a target. -/
def isUnreserved (b : UInt8) : Bool :=
  ('0'.toUInt8 ≤ b && b ≤ '9'.toUInt8) || ('a'.toUInt8 ≤ b && b ≤ 'z'.toUInt8) ||
    ('A'.toUInt8 ≤ b && b ≤ 'Z'.toUInt8) || b = '-'.toUInt8 || b = '.'.toUInt8 || b = '_'.toUInt8 ||
    b = '~'.toUInt8

/-- Writes all bytes but the unreserved ones with percent signs. -/
def percentEncode (bs : List UInt8) : List UInt8 :=
  bs.flatMap fun b =>
    if isUnreserved b then [b] else ['%'.toUInt8, hexDigit (b / 16), hexDigit (b % 16)]

/-- The text that a segment of a path stands for, if its bytes are one. -/
def decodeSegment? (segment : String) : Option String :=
  Text.ofBytes? (percentDecode (Text.bytes segment))

/-- The segment of a path that stands for a text. -/
def encodeSegment (s : String) : String := Text.ofBytes (percentEncode (Text.bytes s))

/-- The text that a name or value of a query stands for. -/
def decodeQueryText (bs : List UInt8) : String :=
  Text.ofBytes (percentDecode (bs.map fun b => if b = '+'.toUInt8 then ' '.toUInt8 else b))

/-- A part of a query: a name, and behind the first equals sign its value. -/
def decodePair (part : List UInt8) : String × String :=
  (decodeQueryText (part.takeWhile (· ≠ '='.toUInt8)),
    decodeQueryText ((part.dropWhile (· ≠ '='.toUInt8)).drop 1))

def parseQuery (query : String) : List (String × String) :=
  (((Text.bytes query).splitOn '&'.toUInt8).filter (!·.isEmpty)).map decodePair

/-! ## Requests -/

inductive Method where
  | get
  | head
  | post
  | put
  | delete
  | options
  | other (name : String)
  deriving DecidableEq, Repr

namespace Method

def ofName : String → Method
  | "GET" => get
  | "HEAD" => head
  | "POST" => post
  | "PUT" => put
  | "DELETE" => delete
  | "OPTIONS" => options
  | name => other name

def name : Method → String
  | get => "GET"
  | head => "HEAD"
  | post => "POST"
  | put => "PUT"
  | delete => "DELETE"
  | options => "OPTIONS"
  | other name => name

end Method

/-- What a request carries: any bytes, which are mostly those of a text. -/
structure Body where
  bytes : List UInt8
  deriving DecidableEq, Repr

instance : Coe String Body := ⟨fun s => ⟨Text.bytes s⟩⟩

structure Request where
  method : Method
  /-- The path, and behind a question mark the query. -/
  target : String
  headers : List (String × String)
  body : Body

namespace Request

def targetChars (r : Request) : List Char := r.target.toList.takeWhile (· ≠ '#')

def path (r : Request) : String := String.ofList (r.targetChars.takeWhile (· ≠ '?'))

def query (r : Request) : List (String × String) :=
  parseQuery (String.ofList ((r.targetChars.dropWhile (· ≠ '?')).drop 1))

def segments (r : Request) : List String := (r.path.toList.splitOn '/').map String.ofList

/-- A character that values of headers are made of. -/
def isHeaderChar (c : Char) : Bool := c = '\t' || (' ' ≤ c && c ≤ '~')

/-- The value of the first header with a name, whatever the case of its letters. A value with other
characters than headers are made of counts as absent. -/
def header (r : Request) (name : String) : Option String :=
  ((r.headers.find? fun h => h.1.toLower = name).map Prod.snd).filter fun v =>
    v.toList.all isHeaderChar

end Request

inductive Content where
  | empty
  | json (v : Json)
  | text (s : String)

structure Answer where
  status : Nat
  contentType : Option String := none
  content : Content := .empty
  /-- The other headers. -/
  headers : List (String × String) := []

namespace Answer

def json (status : Nat) (v : Json) : Answer :=
  { status, contentType := some "application/json", content := .json v }

def plain (status : Nat) (s : String) : Answer :=
  { status, contentType := some "text/plain; charset=utf-8", content := .text s }

def withoutContent (a : Answer) : Answer := { a with content := .empty }

end Answer

end AuditTrail.Http
