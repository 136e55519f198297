import AuditTrail.Text.Basic
import AuditTrail.Time.Instant
/-!
# Times in texts

An instant is written in universal time: `2024-05-06T07:08:09.500Z`. A fraction has three, six or nine digits, as
few as are exact. Years of more than four digits and years before 0 have a sign. Three forms of time are read:
`Instant.ofRfc3339?` is the strict form of RFC 3339, `Instant.ofText?` a relaxed one with blanks between the parts and
numbers of fewer digits, and `Date.ofText?` a date alone.
-/

namespace AuditTrail

/-! ## Writing -/

/-- The digits of a number with zeros before them up to a width. -/
def padded (width n : Nat) : List Char :=
  let ds := Nat.toDigits 10 n
  List.replicate (width - ds.length) '0' ++ ds

namespace Date

/-- Four digits; with a sign for years that need more or lie before 0. -/
def yearChars (year : Int) : List Char :=
  if year < 0 then '-' :: padded 4 year.natAbs
  else if 9999 < year then '+' :: padded 4 year.natAbs
  else padded 4 year.natAbs

/-- Year, month and day with dashes between them. -/
def chars (d : Date) : List Char :=
  yearChars d.year ++ '-' :: padded 2 d.month ++ '-' :: padded 2 d.day

end Date

namespace Instant

/-- The nanoseconds within the second or leap second. -/
def fraction (t : Instant) : Nat := t.nanos % 1000000000

/-- The second of the minute as it is written: sixty for a leap second. -/
def writtenSecond (t : Instant) : Nat := t.secondOfDay % 60 + t.nanos / 1000000000

def clockChars (t : Instant) : List Char :=
  t.date.chars ++ 'T' :: padded 2 (t.secondOfDay / 3600) ++ ':' ::
    padded 2 (t.secondOfDay / 60 % 60) ++ ':' :: padded 2 t.writtenSecond

/-- The fraction of the second with its point. -/
def fractionChars (n : Nat) : List Char :=
  if n = 0 then []
  else if n % 1000000 = 0 then '.' :: padded 3 (n / 1000000)
  else if n % 1000 = 0 then '.' :: padded 6 (n / 1000)
  else '.' :: padded 9 n

def chars (t : Instant) : List Char :=
  t.clockChars ++ fractionChars t.fraction ++ ['Z']

/-- The instant with the fewest exact digits. -/
def written (t : Instant) : String := String.ofList t.chars

def writtenToSecond (t : Instant) : String := String.ofList (t.clockChars ++ ['Z'])

end Instant

/-! ## Reading -/

/-- Reads a number of at least one and at most `width` decimal digits. -/
def takeNumber (width : Nat) (cs : List Char) : Option (Nat × List Char) :=
  let ds := (cs.take width).takeWhile Char.isDigit
  if ds.isEmpty then none
  else some (ds.foldl (fun n c => n * 10 + (c.toNat - '0'.toNat)) 0, cs.drop ds.length)

/-- Reads a number of exactly `width` digits. -/
def takeFixed (width : Nat) (cs : List Char) : Option (Nat × List Char) :=
  if ((cs.take width).takeWhile Char.isDigit).length = width then takeNumber width cs else none

def dropChar (c : Char) : List Char → Option (List Char)
  | d :: rest => if d = c then some rest else none
  | [] => none

/-- Reads the digits of a fraction as nanoseconds; those after the ninth are dropped. -/
def takeNanos (cs : List Char) : Option (Nat × List Char) := do
  let (n, rest) ← takeNumber 9 cs
  some (n * Nat.pow 10 (9 - (cs.length - rest.length)), rest.dropWhile Char.isDigit)

/-- Reads a fraction after its point, if there is one. -/
def takeFraction : List Char → Option (Nat × List Char)
  | '.' :: rest => takeNanos rest
  | cs => some (0, cs)

/-- The characters that may stand between date and time. -/
def dropTimeMark : List Char → Option (List Char)
  | 'T' :: rest => some rest
  | 't' :: rest => some rest
  | ' ' :: rest => some rest
  | _ => none

/-- Reads an offset from universal time in minutes: a letter Z, or a sign, two digits, what `between`
drops and two digits of at most 59. -/
def takeOffset (between : List Char → Option (List Char)) (cs : List Char) : Option (Int × List Char) :=
  let signed (negative : Bool) (cs : List Char) : Option (Int × List Char) := do
    let (hours, cs) ← takeFixed 2 cs
    let cs ← between cs
    let (minutes, cs) ← takeFixed 2 cs
    if 59 < minutes then none
    else
      let offset : Int := hours * 60 + minutes
      some (if negative then -offset else offset, cs)
  match cs with
  | 'Z' :: rest => some (0, rest)
  | 'z' :: rest => some (0, rest)
  | '+' :: rest => signed false rest
  | '-' :: rest => signed true rest
  | '\u2212' :: rest => signed true rest
  | _ => none

def validOffset (minutes : Int) : Bool := decide (minutes.natAbs < 24 * 60)

namespace Date

/-- Reads a year: up to four digits, or any number of them after a sign. -/
def takeYear (cs : List Char) : Option (Int × List Char) :=
  match Text.trimLeft cs with
  | '-' :: rest => (takeNumber rest.length rest).map fun (n, cs) => (-(n : Int), cs)
  | '+' :: rest => (takeNumber rest.length rest).map fun (n, cs) => ((n : Int), cs)
  | cs => (takeNumber 4 cs).map fun (n, cs) => ((n : Int), cs)

/-- Reads a number of one or two digits after blanks. -/
def takePart (cs : List Char) : Option (Nat × List Char) := takeNumber 2 (Text.trimLeft cs)

/-- Reads a date; `gap` drops what may stand before a dash. -/
def take (gap : List Char → List Char) (cs : List Char) : Option (Date × List Char) := do
  let (year, cs) ← takeYear cs
  let cs ← dropChar '-' (gap cs)
  let (month, cs) ← takePart cs
  let cs ← dropChar '-' (gap cs)
  let (day, cs) ← takePart cs
  some (⟨year, month, day⟩, cs)

/-- Reads a date that has no blanks before its dashes. -/
def ofText? (s : String) : Option Date :=
  match take id s.toList with
  | some (d, []) => if d.Valid ∧ minYear ≤ d.year ∧ d.year ≤ maxYear then some d else none
  | _ => none

end Date

namespace Instant

/-- Reads the relaxed form: blanks may stand before and after every part. -/
def ofChars? (cs : List Char) : Option Instant := do
  let (date, cs) ← Date.take Text.trimLeft cs
  let cs ← dropTimeMark cs
  let (hour, cs) ← Date.takePart cs
  let cs ← dropChar ':' (Text.trimLeft cs)
  let (minute, cs) ← Date.takePart cs
  let cs ← dropChar ':' (Text.trimLeft cs)
  let (second, cs) ← Date.takePart cs
  let (nanos, cs) ← takeFraction cs
  let cs := Text.trimLeft cs
  let (offset, cs) ←
    if (cs.take 3).map Char.toUpper = ['U', 'T', 'C'] then some (0, cs.drop 3)
    else takeOffset (fun cs => some (cs.dropWhile fun c => c == ':' || Text.isBlank c)) cs
  if (Text.trimLeft cs).isEmpty ∧ validOffset offset then
    ofLocal? date hour minute second nanos offset
  else none

def ofText? (s : String) : Option Instant := ofChars? s.toList

def ofRfc3339? (s : String) : Option Instant := do
  let (year, cs) ← takeFixed 4 s.toList
  let cs ← dropChar '-' cs
  let (month, cs) ← takeFixed 2 cs
  let cs ← dropChar '-' cs
  let (day, cs) ← takeFixed 2 cs
  let cs ← dropTimeMark cs
  let (hour, cs) ← takeFixed 2 cs
  let cs ← dropChar ':' cs
  let (minute, cs) ← takeFixed 2 cs
  let cs ← dropChar ':' cs
  let (second, cs) ← takeFixed 2 cs
  let (nanos, cs) ← takeFraction cs
  let (offset, cs) ← takeOffset (dropChar ':') cs
  if cs.isEmpty ∧ validOffset offset then
    ofLocal? ⟨year, month, day⟩ hour minute second nanos offset
  else none

end Instant

end AuditTrail
