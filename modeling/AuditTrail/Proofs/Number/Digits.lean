import AuditTrail.Time.Text
import Mathlib.Algebra.Group.Nat.Defs
/-!
# Decimal digits

The digits of a number read back as the number, with or without zeros before them, up to where the digits
end.
-/

namespace AuditTrail

/-- A text that does not go on with a digit. -/
def EndsDigits (cs : List Char) : Prop := ∀ c ∈ cs.head?, c.isDigit = false

@[simp] theorem endsDigits_nil : EndsDigits [] := by simp [EndsDigits]

@[simp] theorem endsDigits_cons (c : Char) (cs : List Char) :
    EndsDigits (c :: cs) ↔ c.isDigit = false := by simp [EndsDigits]

theorem EndsDigits.takeWhile {cs : List Char} (h : EndsDigits cs) : cs.takeWhile Char.isDigit = [] := by
  cases cs with
  | nil => rfl
  | cons c rest => simp [(endsDigits_cons c rest).mp h]

theorem EndsDigits.dropWhile {cs : List Char} (h : EndsDigits cs) : cs.dropWhile Char.isDigit = cs := by
  cases cs with
  | nil => rfl
  | cons c rest => simp [(endsDigits_cons c rest).mp h]

theorem EndsDigits.take {cs : List Char} (h : EndsDigits cs) (n : Nat) : EndsDigits (cs.take n) := by
  cases cs with
  | nil => simp
  | cons c rest => cases n <;> simp_all

/-- Reading digits one after the other gives the number that they are the digits of. -/
theorem foldl_toDigits (n : Nat) :
    (Nat.toDigits 10 n).foldl (fun n c => n * 10 + (c.toNat - '0'.toNat)) 0 = n := by
  have h := Nat.ofDigitChars_ten_toDigits (n := n)
  rw [Nat.ofDigitChars_eq_foldl] at h
  simpa only [Nat.mul_comm] using h

/-! ## Digits of a fixed width -/

theorem isDigit_padded {width n : Nat} {c : Char} (h : c ∈ padded width n) : c.isDigit = true := by
  simp only [padded, List.mem_append, List.mem_replicate] at h
  rcases h with ⟨-, rfl⟩ | h
  · rfl
  · exact Nat.isDigit_of_mem_toDigits (by decide) (by decide) h

theorem length_padded {width n : Nat} (hw : 0 < width) (hn : n < 10 ^ width) :
    (padded width n).length = width := by
  have h := (Nat.length_toDigits_le_iff (b := 10) (by decide) hw).mpr hn
  simp only [padded, List.length_append, List.length_replicate]
  omega

theorem length_padded_eq_iff {width n : Nat} (hw : 0 < width) :
    (padded width n).length = width ↔ n < 10 ^ width := by
  refine ⟨fun h => ?_, length_padded hw⟩
  rw [← Nat.length_toDigits_le_iff (b := 10) (by decide) hw]
  simp only [padded, List.length_append, List.length_replicate] at h
  omega

theorem padded_ne_nil (width n : Nat) : padded width n ≠ [] := by simp [padded]

theorem foldl_padded (width n : Nat) :
    (padded width n).foldl (fun n c => n * 10 + (c.toNat - '0'.toNat)) 0 = n := by
  have hzeros (k : Nat) :
      (List.replicate k '0').foldl (fun n c => n * 10 + (c.toNat - '0'.toNat)) 0 = 0 := by
    induction k with
    | zero => rfl
    | succ k ih => rw [List.replicate_succ, List.foldl_cons]; exact ih
  rw [padded, List.foldl_append, hzeros, foldl_toDigits]

/-- Digits are read to their end, which may be the width or a character that is no digit. -/
theorem takeNumber_append {width : Nat} {ds rest : List Char} (hds : ∀ c ∈ ds, c.isDigit = true)
    (hne : ds ≠ []) (hlen : ds.length ≤ width) (hrest : ds.length = width ∨ EndsDigits rest) :
    takeNumber width (ds ++ rest) =
      some (ds.foldl (fun n c => n * 10 + (c.toNat - '0'.toNat)) 0, rest) := by
  have hend : EndsDigits (rest.take (width - ds.length)) := by
    rcases hrest with h | h
    · rw [h, Nat.sub_self]
      simp
    · exact h.take _
  have htake : ((ds ++ rest).take width).takeWhile Char.isDigit = ds := by
    rw [List.take_append, List.take_of_length_le hlen, List.takeWhile_append_of_pos hds, hend.takeWhile,
      List.append_nil]
  simp only [takeNumber, htake, List.isEmpty_iff, hne, if_false, List.drop_left]

/-- A number in so many digits is read back, whatever follows it. -/
theorem takeNumber_padded {width n : Nat} (hw : 0 < width) (hn : n < 10 ^ width) (rest : List Char) :
    takeNumber width (padded width n ++ rest) = some (n, rest) := by
  have hlen := length_padded hw hn
  rw [takeNumber_append (fun _ => isDigit_padded) (padded_ne_nil _ _) (Nat.le_of_eq hlen) (.inl hlen),
    foldl_padded]

end AuditTrail
