/-!
# Numbers

Decimal integers with bounds, and floating point numbers. A finite floating point number of 64 bits is a sign, a
mantissa below `2 ^ 53` and a power of two of at least `2 ^ (-1074)`. Every operation is one rounding of an exact
quotient of natural numbers, so nothing here depends on the machine's own arithmetic.
-/

namespace AuditTrail

/-! ## Integers -/

/-- What the natural numbers of so many bits stay below. -/
def wordBound (bits : Nat) : Nat := Nat.pow 2 bits

/-- The least signed integer of so many bits. -/
def minInt (bits : Nat) : Int := -(wordBound (bits - 1) : Int)

/-- The greatest signed integer of so many bits. -/
def maxInt (bits : Nat) : Int := (wordBound (bits - 1) : Int) - 1

/-- The digits at the start of a text as a number, how many there are, and the rest. -/
def spanNumber (cs : List Char) : Nat × Nat × List Char :=
  let ds := cs.takeWhile Char.isDigit
  (ds.foldl (fun n c => n * 10 + (c.toNat - '0'.toNat)) 0, ds.length, cs.drop ds.length)

/-- Reads a sign, if there is one: whether it is a minus, and the rest. -/
def takeSign : List Char → Bool × List Char
  | '-' :: rest => (true, rest)
  | '+' :: rest => (false, rest)
  | cs => (false, cs)

/-- The number that a text of at least one digit and nothing else stands for. -/
def parseDigits (cs : List Char) : Option Nat :=
  match spanNumber cs with
  | (n, _ + 1, []) => some n
  | _ => none

/-- Reads an integer between two bounds. -/
def parseInteger (lo hi : Int) (s : String) : Option Int :=
  let (negative, cs) := takeSign s.toList
  ((parseDigits cs).map fun (n : Nat) => if negative then -(n : Int) else n).filter
    fun n => lo ≤ n ∧ n ≤ hi

/-- Reads a natural number below a bound. -/
def parseNatural (bound : Nat) (s : String) : Option Nat :=
  match takeSign s.toList with
  | (true, _) => none
  | (false, cs) => (parseDigits cs).filter fun n => n < bound

/-! ## Finite floating point numbers -/

/-- The number `± mantissa · 2 ^ exponent`. -/
structure Binary64 where
  negative : Bool
  mantissa : Nat
  exponent : Int
  deriving DecidableEq, Repr

namespace Binary64

/-- The smallest power of two that a mantissa is a multiple of. -/
def minExponent : Int := -1074

/-- The largest power of two that a mantissa is a multiple of. -/
def maxExponent : Int := 971

/-- One representation for each number: the mantissa is as large as its 53 bits allow, unless the
exponent is the smallest one. -/
def Canonical (x : Binary64) : Prop :=
  x.mantissa < Nat.pow 2 53 ∧ minExponent ≤ x.exponent ∧ x.exponent ≤ maxExponent ∧
    (Nat.pow 2 52 ≤ x.mantissa ∨ x.exponent = minExponent)

instance (x : Binary64) : Decidable x.Canonical := by
  unfold Canonical
  infer_instance

/-- Zero, with a sign. -/
def zero (negative : Bool) : Binary64 := ⟨negative, 0, minExponent⟩

def isZero (x : Binary64) : Bool := x.mantissa == 0

/-- The integer nearest to `num / den`, the even one of two. -/
def roundQuotient (num den : Nat) : Nat :=
  let q := num / den
  let r := num % den
  if 2 * r < den then q
  else if den < 2 * r then q + 1
  else if q % 2 = 0 then q else q + 1

/-- `num / den` in units of `2 ^ e`, as a numerator and a denominator. -/
def inUnits (num den : Nat) (e : Int) : Nat × Nat :=
  (num * Nat.pow 2 (-e).toNat, den * Nat.pow 2 e.toNat)

/-- The exponent at which the quotient has 53 bits, or the smallest exponent if that is larger. -/
def exponentOf (num den : Nat) : Int :=
  let e := max minExponent ((num.log2 : Int) - den.log2 - 53)
  let (n, d) := inUnits num den e
  if Nat.pow 2 53 ≤ n / d then e + 1 else e

/-- The floating point number nearest to `± num / den`, the one with the even mantissa of two;
`none` when it is too large. -/
def ofQuotient (negative : Bool) (num den : Nat) : Option Binary64 :=
  if num = 0 then some (zero negative) else
  let e := exponentOf num den
  let (n, d) := inUnits num den e
  let m := roundQuotient n d
  let (m, e) := if m = Nat.pow 2 53 then (Nat.pow 2 52, e + 1) else (m, e)
  if maxExponent < e then none else some ⟨negative, m, e⟩

/-- The nearest floating point number to a natural number. -/
def ofNat (n : Nat) : Option Binary64 := ofQuotient false n 1

/-- The absolute value as a numerator and a denominator. -/
def magnitude (x : Binary64) : Nat × Nat :=
  (x.mantissa * Nat.pow 2 x.exponent.toNat, Nat.pow 2 (-x.exponent).toNat)

def neg (x : Binary64) : Binary64 := { x with negative := !x.negative }

def mul (x y : Binary64) : Option Binary64 :=
  let (a, b) := x.magnitude
  let (c, d) := y.magnitude
  ofQuotient (x.negative != y.negative) (a * c) (b * d)

/-- The rounded quotient by a number other than zero. -/
def div (x y : Binary64) : Option Binary64 :=
  let (a, b) := x.magnitude
  let (c, d) := y.magnitude
  ofQuotient (x.negative != y.negative) (a * d) (b * c)

/-- The nearest floating point number to `10 ^ k`. -/
def tenPow (k : Nat) : Option Binary64 := ofNat (Nat.pow 10 k)

/-! ## Shortest decimals -/

/-- `a · 2 ^ e` and `b · 10 ^ p` are in the order of `a * scale.1` and `b * scale.2`. -/
def commonScale (e p : Int) : Nat × Nat :=
  (Nat.pow 2 e.toNat * Nat.pow 10 (-p).toNat, Nat.pow 10 p.toNat * Nat.pow 2 (-e).toNat)

/-- The number of decimal digits before the point; zero or less for a number below one tenth or so. -/
def decimalMagnitude (x : Binary64) : Int :=
  let (n, d) := x.magnitude
  ((Nat.toDigits 10 (n * Nat.pow 10 330 / d)).length : Int) - 330

/-- The nearest of the multiples of `10 ^ p` that read back as `x`, as a factor of `10 ^ p`. -/
def onGrid? (x : Binary64) (p : Int) : Option Nat :=
  let (two, ten) := commonScale (x.exponent - 2) p
  let value := 4 * x.mantissa * two
  let below := if x.mantissa = Nat.pow 2 52 ∧ x.exponent ≠ minExponent then 1 else 2
  let lo := (4 * x.mantissa - below) * two
  let hi := (4 * x.mantissa + 2) * two
  let closed := x.mantissa % 2 == 0
  let reads (c : Nat) : Bool :=
    if closed then lo ≤ c * ten && c * ten ≤ hi else lo < c * ten && c * ten < hi
  let f := value / ten
  let r := value % ten
  match reads f, reads (f + 1) with
  | true, true =>
    if 2 * r < ten then some f
    else if ten < 2 * r then some (f + 1)
    else if f % 2 = 0 then some f else some (f + 1)
  | true, false => some f
  | false, true => some (f + 1)
  | false, false => none

/-- A factor without trailing zeros and the power of ten that goes with it. -/
def stripZeros : Nat → Nat → Int → Nat × Int
  | 0, c, p => (c, p)
  | fuel + 1, c, p => if c % 10 = 0 ∧ c ≠ 0 then stripZeros fuel (c / 10) (p + 1) else (c, p)

/-- The shortest decimal `c · 10 ^ p` that reads back as the absolute value of `x`. -/
def shortest (x : Binary64) : Nat × Int :=
  let top := x.decimalMagnitude
  let grids := (List.range 17).map fun n => top - (n + 1 : Nat)
  match grids.findSome? fun p => (x.onGrid? p).map (·, p) with
  | some (c, p) => stripZeros 20 c p
  | none => (0, 0)

end Binary64

/-! ## Plain decimals -/

inductive Float64 where
  | finite (x : Binary64)
  | infinite (negative : Bool)
  | undefined
  deriving DecidableEq, Repr

namespace Float64

/-- The number nearest to `± digits · 10 ^ exponent`. Decimals far outside the range are decided without
the power of ten. -/
def ofDecimal (negative : Bool) (digits : Nat) (exponent : Int) : Float64 :=
  let top : Int := (Nat.toDigits 10 digits).length + exponent
  if digits = 0 ∨ top < -400 then finite (Binary64.zero negative)
  else if 400 < top then infinite negative
  else
    (Binary64.ofQuotient negative (digits * Nat.pow 10 exponent.toNat)
      (Nat.pow 10 (-exponent).toNat)).elim (infinite negative) finite

def readExponent (cs : List Char) : Option Int :=
  let (negative, cs) := takeSign cs
  (parseDigits cs).map fun (n : Nat) => if negative then -(n : Int) else n

/-- Reads digits with at most one point between or beside them, then an exponent or nothing. -/
def readDigits (negative : Bool) (cs : List Char) : Option Float64 :=
  let (whole, before, cs) := spanNumber cs
  let (fraction, after, cs) := match cs with
    | '.' :: rest => spanNumber rest
    | cs => (0, 0, cs)
  if before + after = 0 then none
  else
    let number (e : Int) := ofDecimal negative (whole * Nat.pow 10 after + fraction) (e - after)
    match cs with
    | [] => some (number 0)
    | c :: rest => if c = 'e' ∨ c = 'E' then (readExponent rest).map number else none

/-- Reads a number: the words for infinity and for no number, in letters of any case, or a decimal. -/
def ofText? (s : String) : Option Float64 :=
  let (negative, cs) := takeSign s.toList
  let word := String.ofList (cs.map Char.toLower)
  if word = "inf" ∨ word = "infinity" then some (infinite negative)
  else if word = "nan" then some undefined
  else readDigits negative cs

/-- The digits of a finite number without an exponent. -/
def plainChars (x : Binary64) : List Char :=
  let (c, p) := x.shortest
  let digits := Nat.toDigits 10 c
  let point := (digits.length : Int) + p
  if x.isZero then ['0']
  else if 0 ≤ p then digits ++ List.replicate p.toNat '0'
  else if 0 < point then digits.take point.toNat ++ '.' :: digits.drop point.toNat
  else ['0', '.'] ++ List.replicate (-point).toNat '0' ++ digits

def text : Float64 → String
  | finite x => String.ofList ((if x.negative then ['-'] else []) ++ plainChars x)
  | infinite negative => if negative then "-inf" else "inf"
  | undefined => "NaN"

/-- The nearest integer, of two the one farther from zero, brought between two bounds; zero for what is
no number. -/
def roundWithin (lo hi : Int) : Float64 → Int
  | finite x =>
    let (n, d) := x.magnitude
    let m : Int := ((2 * n + d) / (2 * d) : Nat)
    max lo (min hi (if x.negative then -m else m))
  | infinite negative => if negative then lo else hi
  | undefined => max lo (min hi 0)

/-- Whether the number is zero, of either sign. -/
def isZero : Float64 → Bool
  | finite x => x.isZero
  | _ => false

end Float64

end AuditTrail
