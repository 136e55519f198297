/-!
# Texts

Blanks at the ends of texts, and texts that are made of bytes. Bytes that are UTF-8 are a text. Of other bytes as
much is kept as is UTF-8: a mark, usually the replacement character, takes the place of each longest beginning of a
character that does not go on as one, and of each byte that begins none.
-/

namespace AuditTrail.Text

/-! ## Blanks -/

def isBlank (c : Char) : Bool :=
  let n := c.toNat
  (9 ≤ n && n ≤ 13) || n == 0x20 || n == 0x85 || n == 0xA0 || n == 0x1680 ||
    (0x2000 ≤ n && n ≤ 0x200A) || n == 0x2028 || n == 0x2029 || n == 0x202F || n == 0x205F ||
    n == 0x3000

/-- The text from its first character on that is not blank. -/
def trimLeft (cs : List Char) : List Char := cs.dropWhile isBlank

/-- The text from its first to its last character that is not blank. -/
def trimChars (cs : List Char) : List Char := (trimLeft (trimLeft cs).reverse).reverse

def trim (s : String) : String := String.ofList (trimChars s.toList)

def blank (s : String) : Bool := s.toList.all isBlank

/-! ## Bytes -/

def bytes (s : String) : List UInt8 := s.toUTF8.toList

/-- The text that some bytes are, if they are UTF-8. -/
def ofBytes? (bs : List UInt8) : Option String := String.fromUTF8? ⟨bs.toArray⟩

private theorem toList_loop (bs : ByteArray) (i : Nat) (r : List UInt8) :
    ByteArray.toList.loop bs i r = r.reverse ++ bs.data.toList.drop i := by
  induction i, r using ByteArray.toList.loop.induct bs with
  | case1 i r hlt ih =>
    have hi : i < bs.data.toList.length := by simpa using hlt
    have hget : bs.get! i = bs.data.toList[i] := by
      rw [ByteArray.get!, Array.getElem_toList]
      exact getElem!_pos bs.data i (by simpa using hlt)
    rw [ByteArray.toList.loop, if_pos hlt, ih, List.drop_eq_getElem_cons hi, hget]
    simp
  | case2 i r hge =>
    have hi : bs.data.toList.length ≤ i := by simpa using hge
    rw [ByteArray.toList.loop, if_neg hge, List.drop_eq_nil_of_le hi, List.append_nil]

theorem bytes_eq (s : String) : bytes s = s.toByteArray.data.toList := by
  have hloop : bytes s = _ := toList_loop s.toByteArray 0 []
  simpa using hloop

theorem length_bytes (s : String) : (bytes s).length = s.utf8ByteSize := by
  rw [bytes_eq]
  rfl

theorem ofBytes?_bytes (s : String) : ofBytes? (bytes s) = some s := by
  have harray : (⟨(bytes s).toArray⟩ : ByteArray) = s.toByteArray := by rw [bytes_eq]
  rw [ofBytes?, harray, String.fromUTF8?, dif_pos s.isValidUTF8]
  rfl

/-- The beginning of a character: its value so far, the number of bytes that it still needs, and the
bounds for the next of them. -/
structure Begun where
  value : Nat
  needed : Nat
  least : Nat
  greatest : Nat
  deriving DecidableEq, Repr

/-- What stands for bytes that are no character. -/
def replacement : Char := '\ufffd'

variable (mark : Char)

/-- Reads a byte at which a character may begin. -/
def beginChar (b : Nat) : List Char × Option Begun :=
  if b < 0x80 then ([Char.ofNat b], none)
  else if 0xC2 ≤ b ∧ b < 0xE0 then ([], some ⟨b - 0xC0, 1, 0x80, 0xBF⟩)
  else if b = 0xE0 then ([], some ⟨0, 2, 0xA0, 0xBF⟩)
  else if b = 0xED then ([], some ⟨0xD, 2, 0x80, 0x9F⟩)
  else if 0xE0 < b ∧ b < 0xF0 then ([], some ⟨b - 0xE0, 2, 0x80, 0xBF⟩)
  else if b = 0xF0 then ([], some ⟨0, 3, 0x90, 0xBF⟩)
  else if 0xF0 < b ∧ b < 0xF4 then ([], some ⟨b - 0xF0, 3, 0x80, 0xBF⟩)
  else if b = 0xF4 then ([], some ⟨4, 3, 0x80, 0x8F⟩)
  else ([mark], none)

/-- Reads one byte after the beginning of a character, or after whole characters. -/
def readByte (state : Option Begun) (b : Nat) : List Char × Option Begun :=
  match state with
  | none => beginChar mark b
  | some c =>
    if c.least ≤ b ∧ b ≤ c.greatest then
      let value := c.value * 64 + (b - 0x80)
      if c.needed ≤ 1 then ([Char.ofNat value], none)
      else ([], some ⟨value, c.needed - 1, 0x80, 0xBF⟩)
    else
      let (chars, state) := beginChar mark b
      (mark :: chars, state)

/-- The characters of bytes after the beginning of a character, or after whole characters. -/
def mendFrom : Option Begun → List UInt8 → List Char
  | none, [] => []
  | some _, [] => [mark]
  | state, b :: rest =>
    let (chars, state) := readByte mark state b.toNat
    chars ++ mendFrom state rest

def mended (bs : List UInt8) : String := String.ofList (mendFrom mark none bs)

def ofBytes (bs : List UInt8) : String := (ofBytes? bs).getD (mended replacement bs)

end AuditTrail.Text
