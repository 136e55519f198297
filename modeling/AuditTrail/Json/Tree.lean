import AuditTrail.Json.Basic
import AuditTrail.Text.Basic
/-!
# The structure of a JSON text

A text is read in two steps. The first finds its structure and checks the syntax only: the nesting is
not bounded, a name may be repeated, a number may be too large and an escape may stand for no character.
The second step, `Json.Reader`, is stricter, but only about the parts it looks at. So bytes that are not UTF-8 do
not matter within a text that nobody looks at.
-/

namespace AuditTrail

namespace Json

/-- The structure of a text. A number without a value is too large for its format, and a text without
one has an escape that stands for no character, or bytes that are none. -/
inductive Tree where
  | null
  | bool (b : Bool)
  | number (n : Option Number)
  | text (s : Option String)
  | array (items : List Tree)
  | object (members : List (Option String × Tree))
  deriving Repr

instance : Inhabited Tree := ⟨.null⟩

/-! ## Numbers -/

structure Literal where
  negative : Bool
  whole : List Nat
  fraction : List Nat
  /-- The sign and the digits after the `e`. -/
  exponent : Option (Bool × List Nat)
  deriving Repr

/-- Appends digits to a number as long as the result has 64 bits; the digits left over come second. -/
def appendDigits : Nat → List Nat → Nat × List Nat
  | n, [] => (n, [])
  | n, d :: rest => if n * 10 + d < wordBound 64 then appendDigits (n * 10 + d) rest else (n, d :: rest)

/-- `significand · 10 ^ exponent` by one multiplication or division, after as many divisions by
`10 ^ 308` as the exponent needs; `none` when it is too large. -/
def scaleByTen (x : Binary64) (exponent : Int) : Option Binary64 :=
  if exponent.natAbs ≤ 308 then do
    let ten ← Binary64.tenPow exponent.natAbs
    if 0 ≤ exponent then x.mul ten else x.div ten
  else if x.isZero then some x
  else if 0 ≤ exponent then none
  else do
    let ten ← Binary64.tenPow 308
    let y ← x.div ten
    scaleByTen y (exponent + 308)
termination_by exponent.natAbs
decreasing_by omega

def digitsValue (ds : List Nat) : Nat := ds.foldl (fun n d => n * 10 + d) 0

namespace Literal

/-- The floating point number that a literal stands for: the first digits that fit into 64 bits, scaled
by a power of ten. -/
def float? (l : Literal) : Option Binary64 := do
  let (n, dropped) := appendDigits 0 l.whole
  let (n, unused) := appendDigits n l.fraction
  let point : Int := dropped.length - (l.fraction.length - unused.length : Nat)
  let sign (x : Binary64) : Binary64 := if l.negative then x.neg else x
  let x ← Binary64.ofNat n
  match l.exponent with
  | none => (scaleByTen x point).map sign
  | some (negative, ds) =>
    let e := digitsValue ds
    if maxInt 32 < e then
      if n ≠ 0 ∧ !negative then none else some (Binary64.zero l.negative)
    else
      let e := if negative then max (minInt 32) (point - e) else min (maxInt 32) (point + e)
      (scaleByTen x e).map sign

/-- The number that a literal stands for: an integer when it has neither fraction nor exponent and fits
into 64 bits, except that minus zero is a floating point number. -/
def number? (l : Literal) : Option Number :=
  match l.fraction, l.exponent, appendDigits 0 l.whole with
  | [], none, (n, []) =>
    if !l.negative then some (.int n)
    else if n = 0 ∨ wordBound 63 < n then l.float?.map .float
    else some (.int (-n))
  | _, _, _ => l.float?.map .float

end Literal

def digitValue (c : Char) : Nat := c.toNat - '0'.toNat

/-- The longest run of decimal digits and what follows it. -/
def spanDigits (cs : List Char) : List Nat × List Char :=
  ((cs.takeWhile Char.isDigit).map digitValue, cs.dropWhile Char.isDigit)

/-- The part of a number after its whole part. -/
def readFraction (cs : List Char) : Option (List Nat × List Char) :=
  match cs with
  | '.' :: rest =>
    match spanDigits rest with
    | ([], _) => none
    | found => some found
  | _ => some ([], cs)

/-- The exponent of a number, if it has one. -/
def readExponent (cs : List Char) : Option (Option (Bool × List Nat) × List Char) :=
  let digits (negative : Bool) (rest : List Char) :=
    match spanDigits rest with
    | ([], _) => none
    | (ds, rest) => some (some (negative, ds), rest)
  match cs with
  | c :: rest =>
    if c = 'e' ∨ c = 'E' then
      match rest with
      | '+' :: rest => digits false rest
      | '-' :: rest => digits true rest
      | _ => digits false rest
    else some (none, cs)
  | [] => some (none, [])

/-- A number: no leading zero, and digits on both sides of a point. -/
def readLiteral (cs : List Char) : Option (Literal × List Char) := do
  let (negative, cs) := match cs with
    | '-' :: rest => (true, rest)
    | _ => (false, cs)
  let (whole, cs) ← match spanDigits cs with
    | ([], _) => none
    | (0 :: _ :: _, _) => none
    | found => some found
  let (fraction, cs) ← readFraction cs
  let (exponent, cs) ← readExponent cs
  some (⟨negative, whole, fraction, exponent⟩, cs)

/-! ## Text -/

/-- A piece of a text: a character, or a 16-bit unit that was written as four hexadecimal digits. -/
inductive Piece where
  | char (c : Char)
  | unit (n : Nat)
  deriving DecidableEq, Repr

def hexValue? (c : Char) : Option Nat :=
  if c.isDigit then some (c.toNat - '0'.toNat)
  else if 'a' ≤ c ∧ c ≤ 'f' then some (c.toNat - 'a'.toNat + 10)
  else if 'A' ≤ c ∧ c ≤ 'F' then some (c.toNat - 'A'.toNat + 10)
  else none

/-- The unit that four hexadecimal digits stand for. -/
def unit? (a b c d : Char) : Option Nat := do
  let a ← hexValue? a
  let b ← hexValue? b
  let c ← hexValue? c
  let d ← hexValue? d
  some (((a * 16 + b) * 16 + c) * 16 + d)

/-- The character of an escape of one letter. -/
def escaped? (c : Char) : Option Char :=
  if c = '"' then some '"'
  else if c = '\\' then some '\\'
  else if c = '/' then some '/'
  else if c = 'b' then some '\x08'
  else if c = 'f' then some '\x0c'
  else if c = 'n' then some '\n'
  else if c = 'r' then some '\r'
  else if c = 't' then some '\t'
  else none

/-- The pieces up to the closing quote, put before `read` in reverse. -/
def readPieces (read : List Piece) : List Char → Option (List Piece × List Char)
  | [] => none
  | '"' :: rest => some (read, rest)
  | '\\' :: 'u' :: a :: b :: c :: d :: rest =>
    match unit? a b c d with
    | some n => readPieces (.unit n :: read) rest
    | none => none
  | '\\' :: c :: rest =>
    match escaped? c with
    | some c => readPieces (.char c :: read) rest
    | none => none
  | c :: rest => if c.toNat < 0x20 then none else readPieces (.char c :: read) rest

/-- The characters of pieces that are given last first. Two units that form a surrogate pair are one
character; a surrogate without its partner is none. -/
def assemble (chars : List Char) : List Piece → Option (List Char)
  | [] => some chars
  | .char c :: rest => assemble (c :: chars) rest
  | .unit low :: .unit high :: rest =>
    if 0xDC00 ≤ low ∧ low < 0xE000 then
      if 0xD800 ≤ high ∧ high < 0xDC00 then
        assemble (Char.ofNat (0x10000 + (high - 0xD800) * 0x400 + (low - 0xDC00)) :: chars) rest
      else none
    else if 0xD800 ≤ low ∧ low < 0xDC00 then none
    else assemble (Char.ofNat low :: chars) (.unit high :: rest)
  | .unit n :: rest =>
    if 0xD800 ≤ n ∧ n < 0xE000 then none else assemble (Char.ofNat n :: chars) rest

def readText (cs : List Char) : Option (Option String × List Char) :=
  (readPieces [] cs).map fun (pieces, rest) => ((assemble [] pieces).map String.ofList, rest)

/-! ## Values -/

def isBlank (c : Char) : Bool := c == ' ' || c == '\t' || c == '\n' || c == '\r'

def skipBlanks (cs : List Char) : List Char := cs.dropWhile isBlank

def dropWord (word : List Char) (cs : List Char) : Option (List Char) :=
  if cs.take word.length = word then some (cs.drop word.length) else none

mutual

/-- Reads a value at the start of a text; the text is shorter than `fuel`. -/
def readTree : Nat → List Char → Option (Tree × List Char)
  | 0, _ => none
  | fuel + 1, cs =>
    match cs with
    | '{' :: rest =>
      match skipBlanks rest with
      | '}' :: rest => some (.object [], rest)
      | '"' :: rest => readMembers fuel [] rest
      | _ => none
    | '[' :: rest =>
      match skipBlanks rest with
      | ']' :: rest => some (.array [], rest)
      | rest => readItems fuel [] rest
    | '"' :: rest => (readText rest).map fun (s, rest) => (.text s, rest)
    | 'n' :: _ => (dropWord ['n', 'u', 'l', 'l'] cs).map fun rest => (.null, rest)
    | 't' :: _ => (dropWord ['t', 'r', 'u', 'e'] cs).map fun rest => (.bool true, rest)
    | 'f' :: _ => (dropWord ['f', 'a', 'l', 's', 'e'] cs).map fun rest => (.bool false, rest)
    | _ => (readLiteral cs).map fun (l, rest) => (.number l.number?, rest)

/-- Reads the items of an array from the start of an item on; `read` holds those before it in
reverse. -/
def readItems : Nat → List Tree → List Char → Option (Tree × List Char)
  | 0, _, _ => none
  | fuel + 1, read, cs =>
    match readTree fuel cs with
    | none => none
    | some (item, rest) =>
      match skipBlanks rest with
      | ',' :: rest => readItems fuel (item :: read) (skipBlanks rest)
      | ']' :: rest => some (.array (item :: read).reverse, rest)
      | _ => none

/-- Reads the members of an object from after the opening quote of a name on. -/
def readMembers : Nat → List (Option String × Tree) → List Char → Option (Tree × List Char)
  | 0, _, _ => none
  | fuel + 1, read, cs =>
    match readText cs with
    | none => none
    | some (name, rest) =>
      match skipBlanks rest with
      | ':' :: rest =>
        match readTree fuel (skipBlanks rest) with
        | none => none
        | some (value, rest) =>
          match skipBlanks rest with
          | ',' :: rest =>
            match skipBlanks rest with
            | '"' :: rest => readMembers fuel ((name, value) :: read) rest
            | _ => none
          | '}' :: rest => some (.object ((name, value) :: read).reverse, rest)
          | _ => none
      | _ => none

end

/-- The structure of a text that holds one value and white space around it. -/
def Tree.parse? (s : String) : Option Tree :=
  let cs := skipBlanks s.toList
  match readTree (cs.length + 1) cs with
  | some (t, rest) => if (skipBlanks rest).isEmpty then some t else none
  | none => none

mutual

/-- The structure of two texts that differ at most within their texts: one that differs has no value. -/
def Tree.common : Tree → Tree → Tree
  | .text s, .text t => .text (if s = t then s else none)
  | .array items, .array others => .array (Tree.commonItems items others)
  | .object members, .object others => .object (Tree.commonMembers members others)
  | t, _ => t

def Tree.commonItems : List Tree → List Tree → List Tree
  | t :: rest, u :: others => t.common u :: Tree.commonItems rest others
  | ts, _ => ts

def Tree.commonMembers :
    List (Option String × Tree) → List (Option String × Tree) → List (Option String × Tree)
  | (m, t) :: rest, (n, u) :: others =>
    (if m = n then m else none, t.common u) :: Tree.commonMembers rest others
  | ms, _ => ms

end

/-- The structure of bytes. Those that are not UTF-8 are read with two marks in turn, so that just the texts with
marks in them differ. -/
def Tree.ofBytes? (bs : List UInt8) : Option Tree :=
  match Text.ofBytes? bs with
  | some s => parse? s
  | none => do
    let t ← parse? (Text.mended '\ufffd' bs)
    let u ← parse? (Text.mended '\ufffc' bs)
    return t.common u

mutual

/-- A value as the structure of a text that holds it. -/
def Tree.ofJson : Json → Tree
  | .null => .null
  | .bool b => .bool b
  | .number n => .number (some n)
  | .text s => .text (some s)
  | .array items => .array (Tree.ofItems items)
  | .object members => .object (Tree.ofMembers members)

def Tree.ofItems : List Json → List Tree
  | [] => []
  | v :: rest => Tree.ofJson v :: Tree.ofItems rest

def Tree.ofMembers : List (String × Json) → List (Option String × Tree)
  | [] => []
  | (n, v) :: rest => (some n, Tree.ofJson v) :: Tree.ofMembers rest

end

end Json

end AuditTrail
