import AuditTrail.Json.Tree
/-!
# Quoted text is read back

`Json.readText_textChars`: the quoted form of a text stands for the text, whatever characters are in it, and
ends at its closing quote.
-/

namespace AuditTrail

namespace Json

/-- A control character without an escape of one letter. -/
private def isEscapedUnit (c : Char) : Bool :=
  c.toNat < 0x20 && c != '\x08' && c != '\x0c' && c != '\n' && c != '\r' && c != '\t'

/-- The piece that a character is read as after it was quoted. -/
private def quotedPiece (c : Char) : Piece := if isEscapedUnit c then .unit c.toNat else .char c

private theorem hexValue?_hexDigit {n : Nat} (h : n < 16) : hexValue? (hexDigit n) = some n := by
  have hall : ∀ k : Fin 16, hexValue? (hexDigit k) = some k.val := by decide
  exact hall ⟨n, h⟩

private theorem unit?_hexDigits {n : Nat} (h : n < 0x20) :
    unit? '0' '0' (hexDigit (n / 16)) (hexDigit (n % 16)) = some n := by
  have hzero : hexValue? '0' = some 0 := rfl
  simp only [unit?, hzero, hexValue?_hexDigit (show n / 16 < 16 by omega),
    hexValue?_hexDigit (show n % 16 < 16 by omega), Option.bind_eq_bind, Option.bind_some]
  congr 1
  omega

private theorem readPieces_escapeChar (c : Char) (read : List Piece) (cs : List Char) :
    readPieces read (escapeChar c ++ cs) = readPieces (quotedPiece c :: read) cs := by
  by_cases hshort : c = '"' ∨ c = '\\' ∨ c = '\x08' ∨ c = '\x0c' ∨ c = '\n' ∨ c = '\r' ∨ c = '\t'
  · rcases hshort with rfl | rfl | rfl | rfl | rfl | rfl | rfl <;>
      simp [escapeChar, readPieces, escaped?, quotedPiece, isEscapedUnit]
  · simp only [not_or] at hshort
    obtain ⟨hquote, hslash, hb, hf, hn, hr, ht⟩ := hshort
    by_cases hlow : c.toNat < 0x20
    · have hpiece : quotedPiece c = .unit c.toNat := by
        simp [quotedPiece, isEscapedUnit, hlow, hb, hf, hn, hr, ht]
      simp only [escapeChar, hquote, hslash, hb, hf, hn, hr, ht, hlow, if_false, if_true, List.cons_append,
        List.nil_append, readPieces, unit?_hexDigits hlow, hpiece]
    · have hpiece : quotedPiece c = .char c := by simp [quotedPiece, isEscapedUnit, hlow]
      simp only [escapeChar, hquote, hslash, hb, hf, hn, hr, ht, hlow, if_false, List.cons_append,
        List.nil_append, hpiece]
      rw [readPieces.eq_def]
      split
      case h_5 heq =>
        cases heq
        rw [if_neg hlow]
      all_goals simp_all

private theorem readPieces_quoted (cs : List Char) (read : List Piece) (rest : List Char) :
    readPieces read (cs.flatMap escapeChar ++ '"' :: rest) =
      some ((cs.map quotedPiece).reverse ++ read, rest) := by
  induction cs generalizing read with
  | nil => simp [readPieces]
  | cons c cs ih =>
    rw [List.flatMap_cons, List.append_assoc, readPieces_escapeChar, ih]
    simp

private theorem assemble_quotedPiece (c : Char) (chars : List Char) (rest : List Piece) :
    assemble chars (quotedPiece c :: rest) = assemble (c :: chars) rest := by
  unfold quotedPiece
  split
  · rename_i h
    have hlow : c.toNat < 0x20 := by
      simp only [isEscapedUnit, Bool.and_eq_true, decide_eq_true_eq] at h
      omega
    have hlarge : ¬(0xDC00 ≤ c.toNat ∧ c.toNat < 0xE000) := by omega
    have hsmall : ¬(0xD800 ≤ c.toNat ∧ c.toNat < 0xDC00) := by omega
    have hnone : ¬(0xD800 ≤ c.toNat ∧ c.toNat < 0xE000) := by omega
    have hself : Char.ofNat c.toNat = c := Char.ofNat_toNat c
    cases rest with
    | nil => simp [assemble, hnone, hself]
    | cons p rest =>
      cases p with
      | char d => simp [assemble, hnone, hself]
      | unit n => simp [assemble, hlarge, hsmall, hself]
  · rw [assemble]

private theorem assemble_quoted (cs chars : List Char) (read : List Piece) :
    assemble chars ((cs.map quotedPiece).reverse ++ read) = assemble (cs ++ chars) read := by
  induction cs generalizing read with
  | nil => rfl
  | cons c cs ih =>
    rw [List.map_cons, List.reverse_cons, List.append_assoc, ih]
    exact assemble_quotedPiece c _ _

theorem readText_quoted (s : String) (rest : List Char) :
    readText (s.toList.flatMap escapeChar ++ '"' :: rest) = some (some s, rest) := by
  have h := assemble_quoted s.toList [] []
  simp only [List.append_nil, assemble] at h
  simp only [readText, readPieces_quoted, List.append_nil, Option.map_some, h, String.ofList_toList]

end Json

end AuditTrail
