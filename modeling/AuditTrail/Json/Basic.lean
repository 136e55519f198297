import AuditTrail.Number
/-!
# JSON values and their compact text

A number is an integer of 64 bits or a floating point number. The members of an object that was read
are in the order of their names, each name once; an object that is built to be written keeps the order
it was built in.
-/

namespace AuditTrail

namespace Json

inductive Number where
  | int (n : Int)
  | float (x : Binary64)
  deriving DecidableEq, Repr

end Json

inductive Json where
  | null
  | bool (b : Bool)
  | number (n : Json.Number)
  | text (s : String)
  | array (items : List Json)
  | object (members : List (String × Json))
  deriving Repr

namespace Json

instance : Inhabited Json := ⟨null⟩

def int (n : Int) : Json := number (.int n)

def nat (n : Nat) : Json := int n

/-- Text or, when there is none, `null`. -/
def optionalText (s : Option String) : Json := s.elim null text

/-- The member of that name; `null` when there is none or the value is no object. -/
def get (name : String) : Json → Json
  | object members => (members.lookup name).getD null
  | _ => null

/-- Puts a member where its name belongs in the order of names, in place of one of that name. -/
def insertMember (name : String) (value : Json) : List (String × Json) → List (String × Json)
  | [] => [(name, value)]
  | (n, v) :: rest =>
    if name = n then (name, value) :: rest
    else if name < n then (name, value) :: (n, v) :: rest
    else (n, v) :: insertMember name value rest

/-- The members in the order of their names; of two with one name the later one counts. -/
def sortMembers (members : List (String × Json)) : List (String × Json) :=
  members.foldl (fun sorted m => insertMember m.1 m.2 sorted) []

/-! ## Writing -/

/-- The decimal digits of a natural number. -/
def natChars (n : Nat) : List Char := Nat.toDigits 10 n

/-- The decimal digits of an integer after its sign, if it is negative. -/
def intChars : Int → List Char
  | .ofNat n => natChars n
  | .negSucc n => '-' :: natChars (n + 1)

/-- An exponent: its sign, and at least two digits. -/
def exponentChars (e : Int) : List Char :=
  let digits := natChars e.natAbs
  (if 0 ≤ e then '+' else '-') :: (List.replicate (2 - digits.length) '0' ++ digits)

/-- A floating point number in its shortest decimal: positional when the point falls within or near
sixteen digits and always with a fraction, else with an exponent. -/
def floatChars (x : Binary64) : List Char :=
  let sign := if x.negative then ['-'] else []
  if x.isZero then sign ++ ['0', '.', '0'] else
  let (c, p) := x.shortest
  let digits := natChars c
  let point := (digits.length : Int) + p
  sign ++
    if 0 ≤ p ∧ point ≤ 16 then digits ++ List.replicate p.toNat '0' ++ ['.', '0']
    else if 0 < point ∧ point ≤ 16 then
      digits.take point.toNat ++ ['.'] ++ digits.drop point.toNat
    else if -5 < point ∧ point ≤ 0 then
      ['0', '.'] ++ List.replicate (-point).toNat '0' ++ digits
    else
      digits.take 1 ++ (if digits.length = 1 then [] else '.' :: digits.drop 1) ++ ['e'] ++
        exponentChars (point - 1)

def Number.chars : Number → List Char
  | .int n => intChars n
  | .float x => floatChars x

def hexDigit (n : Nat) : Char := Nat.digitChar n

/-- A character between quotes: quotes, backslashes and control characters are escaped. -/
def escapeChar (c : Char) : List Char :=
  if c = '"' then ['\\', '"']
  else if c = '\\' then ['\\', '\\']
  else if c = '\x08' then ['\\', 'b']
  else if c = '\x0c' then ['\\', 'f']
  else if c = '\n' then ['\\', 'n']
  else if c = '\r' then ['\\', 'r']
  else if c = '\t' then ['\\', 't']
  else if c.toNat < 0x20 then ['\\', 'u', '0', '0', hexDigit (c.toNat / 16), hexDigit (c.toNat % 16)]
  else [c]

def textChars (s : String) : List Char :=
  '"' :: s.toList.flatMap escapeChar ++ ['"']

mutual

/-- The text of a value without white space. -/
def chars : Json → List Char
  | null => ['n', 'u', 'l', 'l']
  | bool true => ['t', 'r', 'u', 'e']
  | bool false => ['f', 'a', 'l', 's', 'e']
  | number n => n.chars
  | text s => textChars s
  | array items => '[' :: itemChars items ++ [']']
  | object members => '{' :: memberChars members ++ ['}']

/-- The items of an array with commas between them. -/
def itemChars : List Json → List Char
  | [] => []
  | [v] => chars v
  | v :: w :: rest => chars v ++ ',' :: itemChars (w :: rest)

/-- The members of an object with commas between them. -/
def memberChars : List (String × Json) → List Char
  | [] => []
  | [(n, v)] => textChars n ++ ':' :: chars v
  | (n, v) :: m :: rest => textChars n ++ ':' :: chars v ++ ',' :: memberChars (m :: rest)

end

def compact (v : Json) : String := String.ofList v.chars

end Json

end AuditTrail
